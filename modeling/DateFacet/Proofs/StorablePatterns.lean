/-
# Patterns that can be stored

A pattern is stored as its tree.  It can be stored if its variables are named and the tree has no
more levels than a place leaves for it (`IsStorable`):

| stored | levels it takes besides those of its parts |
| --- | --- |
| variable, named node | one |
| literal | two |
| triple, comparison, filter | one |
| joined condition, triples, group, union | two |

What is decoded can be stored, whatever form it was read from.  Its names were checked on the way,
and its levels were there in the text, for no form takes fewer of them than the tree does.
-/

import DateFacet.Proofs.HeldReadings
import DateFacet.Proofs.Names

namespace DateFacet

open Json (Reading)
open Outcome (bind_eq_ok_iff map_eq_ok_iff mapError_eq_ok_iff)

namespace Sparql

/-! ## What can be stored -/

/-- Something that is stored with these terms is read back: its variables are named, and its tree
has at most these levels. -/
structure IsStorable (levels : Nat) (json : Json) (terms : List Term) : Prop where
  named : ∀ v, .variable v ∈ terms → v.IsNamed
  held : json.reading.canBeHeld levels = true

section

variable {levels : Nat}

/-- A text is stored at any level, and has no terms. -/
@[simp] theorem isStorable_string (s : String) : IsStorable levels (.string s) [] where
  named := fun _ mem => nomatch mem
  held := Json.canBeHeld_string levels s

/-- An object can be stored if its fields can, with one level less. -/
theorem isStorable_object (fields : List (String × Json × List Term)) :
    IsStorable levels (.object (fields.map fun field => (field.1, field.2.1)))
        (fields.flatMap fun field => field.2.2) ↔
      0 < levels ∧ ∀ field ∈ fields, IsStorable (levels - 1) field.2.1 field.2.2 := by
  constructor
  · rintro ⟨named, held⟩
    obtain ⟨pos, each⟩ := Json.canBeHeld_object.1 held
    refine ⟨pos, fun field mem => ⟨fun v hv => ?_, ?_⟩⟩
    · exact named v (List.mem_flatMap.2 ⟨field, mem, hv⟩)
    · exact each _ (List.mem_map_of_mem mem)
  · rintro ⟨pos, each⟩
    refine ⟨fun v mem => ?_, Json.canBeHeld_object.2 ⟨pos, fun field mem => ?_⟩⟩
    · obtain ⟨field, hfield, hv⟩ := List.mem_flatMap.1 mem
      exact (each field hfield).named v hv
    · obtain ⟨field, hfield, rfl⟩ := List.mem_map.1 mem
      exact (each field hfield).held

/-- An array can be stored if its items can, with one level less. -/
theorem isStorable_array {α : Type} (json : α → Json) (terms : α → List Term) (as : List α) :
    IsStorable levels (.array (as.map json)) (as.flatMap terms) ↔
      0 < levels ∧ ∀ a ∈ as, IsStorable (levels - 1) (json a) (terms a) := by
  constructor
  · rintro ⟨named, held⟩
    obtain ⟨pos, each⟩ := Json.canBeHeld_array.1 held
    refine ⟨pos, fun a mem => ⟨fun v hv => ?_, ?_⟩⟩
    · exact named v (List.mem_flatMap.2 ⟨a, mem, hv⟩)
    · exact each _ (List.mem_map_of_mem mem)
  · rintro ⟨pos, each⟩
    refine ⟨fun v mem => ?_, Json.canBeHeld_array.2 ⟨pos, fun item mem => ?_⟩⟩
    · obtain ⟨a, ha, hv⟩ := List.mem_flatMap.1 mem
      exact (each a ha).named v hv
    · obtain ⟨a, ha, rfl⟩ := List.mem_map.1 mem
      exact (each a ha).held

/-- A variable takes one level, and has to be named. -/
theorem isStorable_variable {v : Variable} :
    IsStorable levels (Term.variable v).json [.variable v] ↔ 0 < levels ∧ v.IsNamed := by
  constructor
  · rintro ⟨named, held⟩
    exact ⟨(Json.canBeHeld_object.1 held).1, named v List.mem_cons_self⟩
  · rintro ⟨pos, h⟩
    refine ⟨fun u mem => ?_, Json.canBeHeld_object.2 ⟨pos, by simp [Variable.json]⟩⟩
    obtain rfl := Term.variable.inj (List.mem_singleton.1 mem)
    exact h

/-- A named node takes one level. -/
theorem isStorable_iri {i : Iri} :
    IsStorable levels (Term.iri i).json [.iri i] ↔ 0 < levels := by
  constructor
  · rintro ⟨-, held⟩
    exact (Json.canBeHeld_object.1 held).1
  · intro pos
    exact ⟨by simp, Json.canBeHeld_object.2 ⟨pos, by simp [Iri.json]⟩⟩

/-- A literal takes two levels. -/
theorem isStorable_literal {l : Literal} :
    IsStorable levels (Term.literal l).json [.literal l] ↔ 1 < levels := by
  have value : l.json.reading.canBeHeld (levels - 1) = true ↔ 1 < levels := by
    rw [Literal.json, Json.canBeHeld_object, Nat.sub_pos_iff_lt]
    simp [Iri.json]
  constructor
  · rintro ⟨-, held⟩
    obtain ⟨-, each⟩ := Json.canBeHeld_object.1 held
    exact value.1 (each ("value", l.json) (by simp))
  · intro two
    refine ⟨by simp, Json.canBeHeld_object.2 ⟨by omega, ?_⟩⟩
    simp [value.2 two]

/-- A triple takes one level besides those of its terms. -/
theorem isStorable_triple {t : Triple} : IsStorable levels t.json t.terms ↔
    0 < levels ∧ IsStorable (levels - 1) t.subject.json [t.subject] ∧
      IsStorable (levels - 1) t.predicate.json [t.predicate] ∧
      IsStorable (levels - 1) t.object.json [t.object] := by
  have fields : IsStorable levels t.json t.terms ↔ _ :=
    isStorable_object [("subject", t.subject.json, [t.subject]),
      ("predicate", t.predicate.json, [t.predicate]), ("object", t.object.json, [t.object])]
  rw [fields]
  simp

/-- A comparison takes one level besides those of its terms. -/
theorem isStorable_compare {sign : Comparison} {left right : Term} :
    IsStorable levels (Condition.compare sign left right).json
        (Condition.compare sign left right).terms ↔
      0 < levels ∧ IsStorable (levels - 1) left.json [left] ∧
        IsStorable (levels - 1) right.json [right] := by
  have fields : IsStorable levels (Condition.compare sign left right).json
      (Condition.compare sign left right).terms ↔ _ :=
    isStorable_object [("type", .string "compare", []), ("op", .string sign.name, []),
      ("left", left.json, [left]), ("right", right.json, [right])]
  rw [fields]
  simp

/-- A list in a field beside a tag takes two levels. -/
theorem isStorable_tagged_list {α : Type} (kind field : String) (json : α → Json)
    (terms : α → List Term) (as : List α) :
    IsStorable levels (.object [("type", .string kind), (field, .array (as.map json))])
        (as.flatMap terms) ↔
      1 < levels ∧ ∀ a ∈ as, IsStorable (levels - 2) (json a) (terms a) := by
  have fields : IsStorable levels _ _ ↔ _ :=
    isStorable_object [("type", .string kind, []),
      (field, .array (as.map json), as.flatMap terms)]
  simp only [List.map_cons, List.map_nil, List.flatMap_cons, List.flatMap_nil, List.nil_append,
    List.append_nil, List.forall_mem_cons, isStorable_string, true_and] at fields
  rw [fields, and_iff_left (List.forall_mem_nil _), isStorable_array, ← and_assoc]
  refine and_congr (by omega) (forall₂_congr fun a _ => ?_)
  rw [Nat.sub_sub]

/-- The members of a condition are stored one by one. -/
theorem Condition.memberJson_eq (cs : List Condition) : memberJson cs = cs.map json := by
  induction cs with
  | nil => rfl
  | cons c cs ih => rw [memberJson, ih, List.map_cons]

theorem Pattern.memberJson_eq (ps : List Pattern) : memberJson ps = ps.map json := by
  induction ps with
  | nil => rfl
  | cons p ps ih => rw [memberJson, ih, List.map_cons]

/-- A conjunction takes two levels besides those of its members. -/
theorem isStorable_all {cs : List Condition} :
    IsStorable levels (Condition.all cs).json (Condition.all cs).terms ↔
      1 < levels ∧ ∀ c ∈ cs, IsStorable (levels - 2) c.json c.terms := by
  rw [Condition.json, Condition.memberJson_eq, Condition.terms, Condition.memberTerms_eq]
  exact isStorable_tagged_list "and" "operands" Condition.json Condition.terms cs

/-- A disjunction takes two levels besides those of its members. -/
theorem isStorable_any {cs : List Condition} :
    IsStorable levels (Condition.any cs).json (Condition.any cs).terms ↔
      1 < levels ∧ ∀ c ∈ cs, IsStorable (levels - 2) c.json c.terms := by
  rw [Condition.json, Condition.memberJson_eq, Condition.terms, Condition.memberTerms_eq]
  exact isStorable_tagged_list "or" "operands" Condition.json Condition.terms cs

/-- Triples take two levels besides their own. -/
theorem isStorable_basic {ts : List Triple} :
    IsStorable levels (Pattern.basic ts).json (Pattern.basic ts).terms ↔
      1 < levels ∧ ∀ t ∈ ts, IsStorable (levels - 2) t.json t.terms :=
  isStorable_tagged_list "bgp" "triples" Triple.json Triple.terms ts

/-- A filter takes one level besides those of its condition. -/
theorem isStorable_filter {c : Condition} :
    IsStorable levels (Pattern.filter c).json (Pattern.filter c).terms ↔
      0 < levels ∧ IsStorable (levels - 1) c.json c.terms := by
  have fields : IsStorable levels _ _ ↔ _ :=
    isStorable_object [("type", .string "filter", []), ("expression", c.json, c.terms)]
  simp only [List.map_cons, List.map_nil, List.flatMap_cons, List.flatMap_nil, List.nil_append,
    List.append_nil, List.forall_mem_cons, isStorable_string, true_and] at fields
  rw [and_iff_left (List.forall_mem_nil _)] at fields
  exact fields

/-- A group takes two levels besides those of its members. -/
theorem isStorable_group {ps : List Pattern} :
    IsStorable levels (Pattern.group ps).json (Pattern.group ps).terms ↔
      1 < levels ∧ ∀ p ∈ ps, IsStorable (levels - 2) p.json p.terms := by
  rw [Pattern.json, Pattern.memberJson_eq, Pattern.terms, Pattern.memberTerms_eq]
  exact isStorable_tagged_list "group" "patterns" Pattern.json Pattern.terms ps

/-- A union takes two levels besides those of its alternatives. -/
theorem isStorable_union {ps : List Pattern} :
    IsStorable levels (Pattern.union ps).json (Pattern.union ps).terms ↔
      1 < levels ∧ ∀ p ∈ ps, IsStorable (levels - 2) p.json p.terms := by
  rw [Pattern.json, Pattern.memberJson_eq, Pattern.terms, Pattern.memberTerms_eq]
  exact isStorable_tagged_list "union" "patterns" Pattern.json Pattern.terms ps

end

/-! ## What is decoded can be stored -/

section

variable {levels : Nat}

/-- A variable that was decoded is named. -/
theorem Variable.isNamed_of_ofReading {r : Reading} {v : Variable}
    (h : Variable.ofReading r = .ok v) : v.IsNamed := by
  obtain ⟨text, -, named⟩ := bind_eq_ok_iff.1 h
  exact isNamed_of_ofText (mapError_eq_ok_iff.1 named)

/-- A term that was decoded under its kind can be stored. -/
theorem isStorable_of_kind {kind : Term.Kind} {value : Reading} {t : Term} (pos : 0 < levels)
    (held : value.canBeHeld (levels - 1) = true) (h : kind.read value = .ok t) :
    IsStorable levels t.json [t] := by
  match kind, h with
  | .variable, h =>
    obtain ⟨v, hv, rfl⟩ := map_eq_ok_iff.1 h
    exact isStorable_variable.2 ⟨pos, Variable.isNamed_of_ofReading hv⟩
  | .iri, h =>
    obtain ⟨i, -, rfl⟩ := map_eq_ok_iff.1 h
    exact isStorable_iri.2 pos
  | .literal, h =>
    obtain ⟨l, hl, rfl⟩ := map_eq_ok_iff.1 h
    obtain ⟨draft, hdraft, -⟩ := bind_eq_ok_iff.1 hl
    -- The value is a record, which is a level of its own.
    have record : 0 < levels - 1 ∧ True :=
      Reading.record_keeps (fun _ => True) (fun _ _ _ _ _ _ _ => trivial) held trivial hdraft
    exact isStorable_literal.2 (Nat.sub_pos_iff_lt.1 record.1)

/-- What is known of a term comes from readings with these levels. -/
def Term.Draft.IsTaken (levels : Nat) : Term.Draft → Prop
  | .empty => True
  | .kind _ => True
  | .held value => value.canBeHeld (levels - 1) = true
  | .whole t => IsStorable levels t.json [t]

/-- A draft of a term stays taken from what was read, field by field. -/
theorem Term.Draft.isTaken_of_put {isHeld : Bool} {draft next : Term.Draft} {name : String}
    {value : Reading} (pos : 0 < levels) (taken : draft.IsTaken levels)
    (held : value.canBeHeld (levels - 1) = true)
    (h : draft.put isHeld name value = some (.ok next)) : next.IsTaken levels := by
  unfold put at h
  split at h
  · cases draft with
    | empty =>
      obtain ⟨kind, -, rfl⟩ := map_eq_ok_iff.1 (Option.some.inj h)
      exact trivial
    | held content =>
      obtain ⟨kind, -, h⟩ := bind_eq_ok_iff.1 (Option.some.inj h)
      obtain ⟨t, ht, rfl⟩ := map_eq_ok_iff.1 h
      exact isStorable_of_kind pos taken ht
    | _ => cases h
  · cases draft with
    | empty =>
      simp only [Option.some.injEq] at h
      split at h
      · cases h
        exact held
      · cases h
    | kind k =>
      obtain ⟨t, ht, rfl⟩ := map_eq_ok_iff.1 (Option.some.inj h)
      exact isStorable_of_kind pos held ht
    | _ => cases h
  · cases h

/-- **A term that was decoded can be stored** in as many levels. -/
theorem isStorable_of_term {isHeld : Bool} {r : Reading} {t : Term}
    (held : r.canBeHeld levels = true) (h : Term.ofReading isHeld r = .ok t) :
    IsStorable levels t.json [t] := by
  cases r with
  | object fields =>
    obtain ⟨pos, each⟩ := Reading.canBeHeld_object.1 held
    obtain ⟨draft, hdraft, h⟩ := bind_eq_ok_iff.1 h
    have start : Term.Draft.empty.IsTaken levels := trivial
    have taken : draft.IsTaken levels :=
      Reading.foldFields_keeps (Term.Draft.IsTaken levels)
        (fun _ _ _ _ hs heldValue step => Term.Draft.isTaken_of_put pos hs heldValue step)
        (fun field mem => (each field mem).2) start hdraft
    cases draft with
    | whole u =>
      obtain rfl := Except.ok.inj h
      exact taken
    | _ => cases h
  | array items =>
    -- The array form has the tag and the value, and nothing behind them.
    obtain ⟨pos, each⟩ := Reading.canBeHeld_array.1 held
    cases items with
    | nil => cases h
    | cons tag items =>
      obtain ⟨kind, -, h⟩ := bind_eq_ok_iff.1 h
      cases items with
      | nil => cases h
      | cons value others =>
        obtain ⟨u, hu, h⟩ := bind_eq_ok_iff.1 h
        split at h
        · obtain rfl := Except.ok.inj h
          exact isStorable_of_kind pos (each value (by simp)) hu
        · cases h
  | _ => cases h

/-- What is known of a triple comes from readings with these levels. -/
structure Triple.Draft.IsTaken (levels : Nat) (draft : Triple.Draft) : Prop where
  subject : Reading.IsTaken levels (Term.ofReading true) draft.subject
  predicate : Reading.IsTaken levels (Term.ofReading true) draft.predicate
  object : Reading.IsTaken levels (Term.ofReading true) draft.object

/-- A draft of a triple stays taken from what was read, field by field. -/
theorem Triple.Draft.isTaken_of_put {draft next : Triple.Draft} {name : String} {value : Reading}
    (taken : draft.IsTaken levels) (held : value.canBeHeld levels = true)
    (h : draft.put name value = some (.ok next)) : next.IsTaken levels := by
  unfold put at h
  split at h
  · obtain ⟨slot, hslot, h⟩ := bind_eq_ok_iff.1 (Option.some.inj h)
    cases h
    exact { taken with subject := Reading.isTaken_of_once held hslot }
  · obtain ⟨slot, hslot, h⟩ := bind_eq_ok_iff.1 (Option.some.inj h)
    cases h
    exact { taken with predicate := Reading.isTaken_of_once held hslot }
  · obtain ⟨slot, hslot, h⟩ := bind_eq_ok_iff.1 (Option.some.inj h)
    cases h
    exact { taken with object := Reading.isTaken_of_once held hslot }
  · cases h

/-- A term in a slot can be stored. -/
theorem isStorable_of_isTaken {slot : Option Term} {t : Term}
    (taken : Reading.IsTaken levels (Term.ofReading true) slot) (mem : slot = some t) :
    IsStorable levels t.json [t] := by
  obtain ⟨value, held, h⟩ := taken t mem
  exact isStorable_of_term held h

/-- A triple that was decoded can be stored. -/
theorem isStorable_of_triple {r : Reading} {t : Triple} (held : r.canBeHeld levels = true)
    (h : Triple.ofReading r = .ok t) : IsStorable levels t.json t.terms := by
  obtain ⟨draft, hdraft, h⟩ := bind_eq_ok_iff.1 h
  have start : (Triple.Draft.mk none none none).IsTaken (levels - 1) :=
    ⟨Reading.isTaken_none, Reading.isTaken_none, Reading.isTaken_none⟩
  obtain ⟨pos, taken⟩ := Reading.record_keeps (Triple.Draft.IsTaken (levels - 1))
    (fun _ _ _ _ hs heldValue step => Triple.Draft.isTaken_of_put hs heldValue step) held start
    hdraft
  split at h
  · obtain rfl := Except.ok.inj h
    exact isStorable_triple.2 ⟨pos, isStorable_of_isTaken taken.subject rfl,
      isStorable_of_isTaken taken.predicate rfl, isStorable_of_isTaken taken.object rfl⟩
  · cases h

/-- What is known of a comparison comes from readings with these levels. -/
structure Comparison.Draft.IsTaken (levels : Nat) (draft : Comparison.Draft) : Prop where
  left : Reading.IsTaken levels (Term.ofReading true) draft.left
  right : Reading.IsTaken levels (Term.ofReading true) draft.right

/-- A draft of a comparison stays taken from what was read, field by field. -/
theorem Comparison.Draft.isTaken_of_put {draft next : Comparison.Draft} {name : String}
    {value : Reading} (taken : draft.IsTaken levels) (held : value.canBeHeld levels = true)
    (h : draft.put name value = some (.ok next)) : next.IsTaken levels := by
  unfold put at h
  split at h
  · obtain ⟨slot, -, h⟩ := bind_eq_ok_iff.1 (Option.some.inj h)
    cases h
    exact ⟨taken.left, taken.right⟩
  · obtain ⟨slot, hslot, h⟩ := bind_eq_ok_iff.1 (Option.some.inj h)
    cases h
    exact { taken with left := Reading.isTaken_of_once held hslot }
  · obtain ⟨slot, hslot, h⟩ := bind_eq_ok_iff.1 (Option.some.inj h)
    cases h
    exact { taken with right := Reading.isTaken_of_once held hslot }
  · cases h

/-- A comparison that was decoded can be stored. -/
theorem isStorable_of_compare {r : Reading} {c : Condition} (held : r.canBeHeld levels = true)
    (h : Condition.compareOfContent r = .ok c) : IsStorable levels c.json c.terms := by
  obtain ⟨draft, hdraft, h⟩ := bind_eq_ok_iff.1 h
  have start : (Comparison.Draft.mk none none none).IsTaken (levels - 1) :=
    ⟨Reading.isTaken_none, Reading.isTaken_none⟩
  obtain ⟨pos, taken⟩ := Reading.record_keeps (Comparison.Draft.IsTaken (levels - 1))
    (fun _ _ _ _ hs heldValue step => Comparison.Draft.isTaken_of_put hs heldValue step) held start
    hdraft
  split at h
  · obtain rfl := Except.ok.inj h
    exact isStorable_compare.2 ⟨pos, isStorable_of_isTaken taken.left rfl,
      isStorable_of_isTaken taken.right rfl⟩
  · cases h

/-- A list beside a tag takes two levels away from what is decoded from its items. -/
theorem exists_of_tagged_list {α : Type} {read : Reading → Decoded α} {field : String}
    {content : Reading} {as : List α} (held : content.canBeHeld levels = true)
    (h : only field (Reading.list read) content = .ok as) : 1 < levels ∧
      ∀ a ∈ as, ∃ item, item.canBeHeld (levels - 2) = true ∧ read item = .ok a := by
  obtain ⟨pos, value, heldValue, hvalue⟩ := Reading.exists_of_only held h
  obtain ⟨pos', each⟩ := Reading.exists_of_list heldValue hvalue
  rw [Nat.sub_sub] at each
  exact ⟨by omega, each⟩

/-- **A condition that was decoded can be stored** in as many levels. -/
theorem isStorable_of_condition {fuel : Nat} {isNested : Bool} {r : Reading} {c : Condition}
    (held : r.canBeHeld levels = true) (h : Condition.ofHeld fuel isNested r = .ok c) :
    IsStorable levels c.json c.terms := by
  induction fuel generalizing levels isNested r c with
  | zero => cases h
  | succ fuel ih =>
    obtain ⟨⟨kind, content⟩, tagged, h⟩ := bind_eq_ok_iff.1 h
    have heldContent := Reading.canBeHeld_of_tagged held tagged
    cases kind with
    | compare => exact isStorable_of_compare heldContent h
    | all =>
      obtain ⟨cs, hcs, rfl⟩ := map_eq_ok_iff.1 h
      obtain ⟨two, each⟩ := exists_of_tagged_list heldContent hcs
      refine isStorable_all.2 ⟨two, fun c mem => ?_⟩
      obtain ⟨item, heldItem, hitem⟩ := each c mem
      exact ih heldItem hitem
    | any =>
      obtain ⟨cs, hcs, rfl⟩ := map_eq_ok_iff.1 h
      obtain ⟨two, each⟩ := exists_of_tagged_list heldContent hcs
      refine isStorable_any.2 ⟨two, fun c mem => ?_⟩
      obtain ⟨item, heldItem, hitem⟩ := each c mem
      exact ih heldItem hitem

/-- **A pattern that was decoded can be stored** in as many levels. -/
theorem isStorable_of_pattern {fuel : Nat} {isNested : Bool} {r : Reading} {p : Pattern}
    (held : r.canBeHeld levels = true) (h : Pattern.ofHeld fuel isNested r = .ok p) :
    IsStorable levels p.json p.terms := by
  induction fuel generalizing levels isNested r p with
  | zero => cases h
  | succ fuel ih =>
    obtain ⟨⟨kind, content⟩, tagged, h⟩ := bind_eq_ok_iff.1 h
    have heldContent := Reading.canBeHeld_of_tagged held tagged
    cases kind with
    | basic =>
      obtain ⟨ts, hts, rfl⟩ := map_eq_ok_iff.1 h
      obtain ⟨two, each⟩ := exists_of_tagged_list heldContent hts
      refine isStorable_basic.2 ⟨two, fun t mem => ?_⟩
      obtain ⟨item, heldItem, hitem⟩ := each t mem
      exact isStorable_of_triple heldItem hitem
    | filter =>
      obtain ⟨c, hc, rfl⟩ := map_eq_ok_iff.1 h
      obtain ⟨pos, value, heldValue, hvalue⟩ := Reading.exists_of_only heldContent hc
      exact isStorable_filter.2 ⟨pos, isStorable_of_condition heldValue hvalue⟩
    | group =>
      obtain ⟨ps, hps, rfl⟩ := map_eq_ok_iff.1 h
      obtain ⟨two, each⟩ := exists_of_tagged_list heldContent hps
      refine isStorable_group.2 ⟨two, fun p mem => ?_⟩
      obtain ⟨item, heldItem, hitem⟩ := each p mem
      exact ih heldItem hitem
    | union =>
      obtain ⟨ps, hps, rfl⟩ := map_eq_ok_iff.1 h
      obtain ⟨two, each⟩ := exists_of_tagged_list heldContent hps
      refine isStorable_union.2 ⟨two, fun p mem => ?_⟩
      obtain ⟨item, heldItem, hitem⟩ := each p mem
      exact ih heldItem hitem

/-- A pattern that was decoded on its own can be stored in as many levels as a text may have. -/
theorem isStorable_of_ofReading {r : Reading} {p : Pattern} (h : Pattern.ofReading r = .ok p) :
    IsStorable Reading.maxLevels p.json p.terms := by
  rw [Pattern.ofReading] at h
  split at h
  · next held => exact isStorable_of_pattern held h
  · cases h

end

end Sparql
end DateFacet
