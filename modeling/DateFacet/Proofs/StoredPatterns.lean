/-
# Stored patterns are read back

Reading a stored pattern back goes through the checks of its names again, and counts its levels.  So
it is read back exactly if it can be stored (`Pattern.decode_json_iff`).  What is decoded can be
stored.  So can the constraint of a range, whose suffixes are names and whose tree has the same few
levels for every class.  Named nodes have passed their check, but a variable that is put together by
hand may have any name, for a suffix is not checked.
-/

import DateFacet.Proofs.ConstraintShape
import DateFacet.Proofs.RangeWindow
import DateFacet.Proofs.StorablePatterns

namespace DateFacet

open Json (Reading)
open Outcome (bind_eq_ok_iff map_eq_ok_iff mapError_eq_ok_iff)

namespace Sparql

/-! ## What can be stored is read back -/

/-- A tag in front of other fields is taken off. -/
theorem tagged_reading {α : Type} {table : List (String × α)} {name : String} {kind : α}
    (isNested : Bool) (lookup : table.lookup name = some kind) {fields : List (String × Json)}
    (others : ∀ field ∈ fields, field.1 ≠ Reading.tagName) :
    Reading.tagged isNested table (Json.object ((Reading.tagName, .string name) :: fields)).reading =
      .ok (kind, (Json.object fields).reading) := by
  rw [Json.reading, Json.reading, Json.fieldReadings_eq, Json.fieldReadings_eq, List.map_cons]
  have without : (fields.map fun field => (some field.1, field.2.reading)).filter
      (fun field => field.1 = some Reading.tagName) = [] := by
    rw [List.filter_eq_nil_iff, List.forall_mem_map]
    intro field mem
    simpa using others field mem
  have rest : (fields.map fun field => (some field.1, field.2.reading)).filter
      (fun field => field.1 ≠ some Reading.tagName) =
        fields.map fun field => (some field.1, field.2.reading) := by
    rw [List.filter_eq_self, List.forall_mem_map]
    intro field mem
    simpa using others field mem
  have tag : Reading.tag isNested table (Json.string name).reading = .ok kind := by
    rw [Json.reading, Reading.tag, lookup]
  rw [Reading.tagged, List.filter_cons_of_pos (by simp), without,
    List.filter_cons_of_neg (by simp), rest]
  simp only [tag]
  rfl

/-- The one field of a record is read. -/
theorem only_reading {α : Type} (field : String) (read : Reading → Decoded α) (value : Json) :
    only field read (Json.object [(field, value)]).reading = read value.reading := by
  rw [Json.reading, Json.fieldReadings_eq, only]
  simp only [List.map_cons, List.map_nil, Reading.record, Reading.foldFields, if_true,
    Reading.once]
  cases read value.reading <;> rfl

/-- A named variable is decoded from what is stored of it. -/
theorem Variable.ofReading_json {v : Variable} (h : v.IsNamed) :
    ofReading v.json.reading = .ok v :=
  bind_eq_ok_iff.2 ⟨v.name, rfl, mapError_eq_ok_iff.2 h⟩

/-- A named node is decoded from what is stored of it. -/
theorem Iri.ofReading_json (i : Iri) : ofReading i.json.reading = .ok i :=
  bind_eq_ok_iff.2 ⟨i.text, rfl, mapError_eq_ok_iff.2 i.ofText_text⟩

/-- A literal is decoded from what is stored of it. -/
theorem Literal.ofReading_json (l : Literal) : ofReading l.json.reading = .ok l := by
  have datatype := l.datatype.ofReading_json
  have record : l.json.reading.record ["lexical", "datatype"] 2 Literal.Draft.put ⟨none, none⟩ =
      .ok ⟨some l.lexical, some l.datatype⟩ := by
    simp only [json, Json.reading, Json.fieldReadings, Reading.record, Reading.foldFields, Draft.put,
      Reading.once, datatype]
    rfl
  exact bind_eq_ok_iff.2 ⟨_, record, rfl⟩

/-- A term is what its kind makes of its value. -/
theorem Term.ofReading_tagged {name : String} {kind : Term.Kind} {value : Json} {t : Term}
    (isHeld : Bool) (lookup : Term.Kind.table.lookup name = some kind)
    (h : kind.read value.reading = .ok t) :
    ofReading isHeld (Json.object [("type", .string name), ("value", value)]).reading = .ok t := by
  have choice : Reading.choice isHeld Term.Kind.table (.string (some name)) = .ok kind := by
    rw [Reading.choice, Reading.choice.named, lookup]
  have first : Draft.put isHeld .empty "type" (.string (some name)) = some (.ok (.kind kind)) := by
    simp only [Draft.put, choice]
    rfl
  have second : Draft.put isHeld (.kind kind) "value" value.reading = some (.ok (.whole t)) := by
    simp only [Draft.put, h]
    rfl
  simp only [Json.reading, Json.fieldReadings, ofReading, Reading.foldFields, first,
    Except.bind, second]
  rfl

/-- **A term is read back** if its variable is named. -/
theorem Term.ofReading_json {t : Term} (named : ∀ v, t = .variable v → v.IsNamed)
    (isHeld : Bool) : ofReading isHeld t.json.reading = .ok t := by
  match t with
  | .variable v =>
    have value : Kind.read .variable v.json.reading = .ok (.variable v) := by
      rw [Kind.read, Variable.ofReading_json (named v rfl)]
      rfl
    exact ofReading_tagged isHeld rfl value
  | .iri i =>
    have value : Kind.read .iri i.json.reading = .ok (.iri i) := by
      rw [Kind.read, i.ofReading_json]
      rfl
    exact ofReading_tagged isHeld rfl value
  | .literal l =>
    have value : Kind.read .literal l.json.reading = .ok (.literal l) := by
      rw [Kind.read, l.ofReading_json]
      rfl
    exact ofReading_tagged isHeld rfl value

section

variable {levels : Nat}

/-- A term that can be stored is decoded from what is stored of it. -/
theorem IsStorable.ofReading {t : Term} (h : IsStorable levels t.json [t]) :
    Term.ofReading true t.json.reading = .ok t := by
  refine Term.ofReading_json (fun v eq => ?_) true
  exact h.named v (List.mem_singleton.2 eq.symm)

/-- A triple that can be stored is decoded from what is stored of it. -/
theorem Triple.ofReading_json {t : Triple} (h : IsStorable levels t.json t.terms) :
    ofReading t.json.reading = .ok t := by
  obtain ⟨-, subject, predicate, object⟩ := isStorable_triple.1 h
  have record : t.json.reading.record ["subject", "predicate", "object"] 3 Draft.put
      ⟨none, none, none⟩ = .ok ⟨some t.subject, some t.predicate, some t.object⟩ := by
    simp only [json, Json.reading, Json.fieldReadings, Reading.record, Reading.foldFields, Draft.put,
      Reading.once, subject.ofReading, predicate.ofReading, object.ofReading]
    rfl
  exact bind_eq_ok_iff.2 ⟨_, record, rfl⟩

/-- The name of a sign is the choice of it. -/
theorem Comparison.choice_name (sign : Comparison) :
    Reading.choice true table (.string (some sign.name)) = .ok sign := by
  cases sign <;> rfl

/-- A comparison is decoded from its sign and its two terms. -/
theorem Condition.compareOfContent_json {sign : Comparison} {left right : Term}
    (hleft : IsStorable levels left.json [left]) (hright : IsStorable levels right.json [right]) :
    compareOfContent (Json.object [("op", .string sign.name), ("left", left.json),
      ("right", right.json)]).reading = .ok (.compare sign left right) := by
  have record : (Json.object [("op", .string sign.name), ("left", left.json),
      ("right", right.json)]).reading.record ["op", "left", "right"] 3 Comparison.Draft.put
        ⟨none, none, none⟩ = .ok ⟨some sign, some left, some right⟩ := by
    simp only [Json.reading, Json.fieldReadings, Reading.record, Reading.foldFields,
      Comparison.Draft.put, Reading.once, sign.choice_name, hleft.ofReading, hright.ofReading]
    rfl
  exact bind_eq_ok_iff.2 ⟨_, record, rfl⟩

/-- A tag beside one field is taken off, and the field is read. -/
theorem tagged_only_reading {α κ : Type} {table : List (String × κ)} {name field : String}
    {kind : κ} {read : Reading → Decoded α} {value : Json} {a : α} (isNested : Bool)
    (lookup : table.lookup name = some kind) (noTag : field ≠ Reading.tagName)
    (h : read value.reading = .ok a) :
    ∃ content, Reading.tagged isNested table
        (Json.object [(Reading.tagName, .string name), (field, value)]).reading =
          .ok (kind, content) ∧ only field read content = .ok a := by
  have others : ∀ other ∈ [(field, value)], other.1 ≠ Reading.tagName :=
    List.forall_mem_singleton.2 noTag
  exact ⟨_, tagged_reading isNested lookup others, (only_reading field read value).trans h⟩

mutual

/-- **A condition that can be stored is read back.** -/
theorem Condition.ofHeld_json : ∀ (c : Condition) {levels fuel : Nat} (isNested : Bool),
    IsStorable levels c.json c.terms → levels ≤ fuel →
      Condition.ofHeld fuel isNested c.json.reading = .ok c
  -- Each level of the tree takes one of the fuel, and every condition has a level.
  | .compare sign left right, levels, fuel, isNested, h, le => by
      obtain ⟨pos, hleft, hright⟩ := isStorable_compare.1 h
      obtain ⟨fuel, rfl⟩ : ∃ n, fuel = n + 1 := Nat.exists_eq_add_one.2 (by omega)
      have tagged : Reading.tagged isNested Kind.table (compare sign left right).json.reading =
          .ok (.compare, (Json.object [("op", .string sign.name), ("left", left.json),
            ("right", right.json)]).reading) :=
        tagged_reading isNested rfl (by simp [Reading.tagName])
      exact bind_eq_ok_iff.2 ⟨_, tagged, Condition.compareOfContent_json hleft hright⟩
  | .all members, levels, fuel, isNested, h, le => by
      obtain ⟨two, each⟩ := isStorable_all.1 h
      obtain ⟨fuel, rfl⟩ : ∃ n, fuel = n + 1 := Nat.exists_eq_add_one.2 (by omega)
      have read := Condition.memberOfHeld_json members each (show levels - 2 ≤ fuel by omega)
      obtain ⟨content, tagged, items⟩ := tagged_only_reading isNested
        (show Kind.table.lookup "and" = some .all from rfl)
        (show "operands" ≠ Reading.tagName by decide) (Json.list_reading read)
      rw [json, memberJson_eq]
      exact bind_eq_ok_iff.2 ⟨_, tagged, map_eq_ok_iff.2 ⟨members, items, rfl⟩⟩
  | .any members, levels, fuel, isNested, h, le => by
      obtain ⟨two, each⟩ := isStorable_any.1 h
      obtain ⟨fuel, rfl⟩ : ∃ n, fuel = n + 1 := Nat.exists_eq_add_one.2 (by omega)
      have read := Condition.memberOfHeld_json members each (show levels - 2 ≤ fuel by omega)
      obtain ⟨content, tagged, items⟩ := tagged_only_reading isNested
        (show Kind.table.lookup "or" = some .any from rfl)
        (show "operands" ≠ Reading.tagName by decide) (Json.list_reading read)
      rw [json, memberJson_eq]
      exact bind_eq_ok_iff.2 ⟨_, tagged, map_eq_ok_iff.2 ⟨members, items, rfl⟩⟩

/-- The members of a joined condition are read back one by one. -/
theorem Condition.memberOfHeld_json : ∀ (cs : List Condition) {levels fuel : Nat},
    (∀ c ∈ cs, IsStorable levels c.json c.terms) → levels ≤ fuel →
      ∀ c ∈ cs, Condition.ofHeld fuel true c.json.reading = .ok c
  | [], _, _, _, _ => fun _ mem => nomatch mem
  | c :: cs, levels, fuel, h, le => by
      obtain ⟨first, others⟩ := List.forall_mem_cons.1 h
      exact List.forall_mem_cons.2
        ⟨Condition.ofHeld_json c true first le, Condition.memberOfHeld_json cs others le⟩

end

mutual

/-- **A pattern that can be stored is read back.** -/
theorem Pattern.ofHeld_json : ∀ (p : Pattern) {levels fuel : Nat} (isNested : Bool),
    IsStorable levels p.json p.terms → levels ≤ fuel → levels ≤ Reading.maxLevels →
      Pattern.ofHeld fuel isNested p.json.reading = .ok p
  | .basic triples, levels, fuel, isNested, h, le, _ => by
      obtain ⟨two, each⟩ := isStorable_basic.1 h
      obtain ⟨fuel, rfl⟩ : ∃ n, fuel = n + 1 := Nat.exists_eq_add_one.2 (by omega)
      have read : ∀ t ∈ triples, Triple.ofReading t.json.reading = .ok t :=
        fun t mem => Triple.ofReading_json (each t mem)
      obtain ⟨content, tagged, items⟩ := tagged_only_reading isNested
        (show Kind.table.lookup "bgp" = some .basic from rfl)
        (show "triples" ≠ Reading.tagName by decide) (Json.list_reading read)
      exact bind_eq_ok_iff.2 ⟨_, tagged, map_eq_ok_iff.2 ⟨triples, items, rfl⟩⟩
  | .filter c, levels, fuel, isNested, h, le, most => by
      obtain ⟨pos, condition⟩ := isStorable_filter.1 h
      obtain ⟨fuel, rfl⟩ : ∃ n, fuel = n + 1 := Nat.exists_eq_add_one.2 (by omega)
      -- A condition starts with fuel of its own, of which there is enough for all levels.
      have read := c.ofHeld_json true condition (show levels - 1 ≤ Reading.maxLevels by omega)
      obtain ⟨content, tagged, whole⟩ := tagged_only_reading isNested
        (show Kind.table.lookup "filter" = some .filter from rfl)
        (show "expression" ≠ Reading.tagName by decide) read
      exact bind_eq_ok_iff.2 ⟨_, tagged, map_eq_ok_iff.2 ⟨c, whole, rfl⟩⟩
  | .group members, levels, fuel, isNested, h, le, most => by
      obtain ⟨two, each⟩ := isStorable_group.1 h
      obtain ⟨fuel, rfl⟩ : ∃ n, fuel = n + 1 := Nat.exists_eq_add_one.2 (by omega)
      have read := Pattern.memberOfHeld_json members each (show levels - 2 ≤ fuel by omega)
        (by omega)
      obtain ⟨content, tagged, items⟩ := tagged_only_reading isNested
        (show Kind.table.lookup "group" = some .group from rfl)
        (show "patterns" ≠ Reading.tagName by decide) (Json.list_reading read)
      rw [json, memberJson_eq]
      exact bind_eq_ok_iff.2 ⟨_, tagged, map_eq_ok_iff.2 ⟨members, items, rfl⟩⟩
  | .union members, levels, fuel, isNested, h, le, most => by
      obtain ⟨two, each⟩ := isStorable_union.1 h
      obtain ⟨fuel, rfl⟩ : ∃ n, fuel = n + 1 := Nat.exists_eq_add_one.2 (by omega)
      have read := Pattern.memberOfHeld_json members each (show levels - 2 ≤ fuel by omega)
        (by omega)
      obtain ⟨content, tagged, items⟩ := tagged_only_reading isNested
        (show Kind.table.lookup "union" = some .union from rfl)
        (show "patterns" ≠ Reading.tagName by decide) (Json.list_reading read)
      rw [json, memberJson_eq]
      exact bind_eq_ok_iff.2 ⟨_, tagged, map_eq_ok_iff.2 ⟨members, items, rfl⟩⟩

/-- The members of a group or a union are read back one by one. -/
theorem Pattern.memberOfHeld_json : ∀ (ps : List Pattern) {levels fuel : Nat},
    (∀ p ∈ ps, IsStorable levels p.json p.terms) → levels ≤ fuel → levels ≤ Reading.maxLevels →
      ∀ p ∈ ps, Pattern.ofHeld fuel true p.json.reading = .ok p
  | [], _, _, _, _, _ => fun _ mem => nomatch mem
  | p :: ps, levels, fuel, h, le, most => by
      obtain ⟨first, others⟩ := List.forall_mem_cons.1 h
      exact List.forall_mem_cons.2 ⟨Pattern.ofHeld_json p true first le most,
        Pattern.memberOfHeld_json ps others le most⟩

end

end

/-- **A stored pattern is read back exactly if it can be stored.** -/
theorem Pattern.decode_json_iff (p : Pattern) :
    Json.decode ofReading p.json.text = .ok p ↔ IsStorable Reading.maxLevels p.json p.terms := by
  rw [Json.decode_text]
  refine ⟨isStorable_of_ofReading, fun storable => ?_⟩
  rw [ofReading, if_pos storable.held]
  exact p.ofHeld_json false storable le_rfl le_rfl

end Sparql

/-! ## Constraints can be stored -/

open Sparql

namespace Range

section

variable {levels : Nat}

/-- A comparison with an instant takes three levels. -/
theorem isStorable_compareWith {v : Variable} (named : v.IsNamed) (sign : Comparison) (t : Instant)
    (three : 2 < levels) :
    IsStorable levels (compareWith v sign t).json (compareWith v sign t).terms :=
  isStorable_compare.2 ⟨by omega, isStorable_variable.2 ⟨by omega, named⟩,
    isStorable_literal.2 (by omega)⟩

/-- Comparisons that are joined take five levels. -/
theorem isStorable_all? {cs : List Condition} {c : Condition}
    (each : ∀ c ∈ cs, ∀ levels, 2 < levels → IsStorable levels c.json c.terms)
    (joined : Condition.all? cs = some c) (five : 4 < levels) :
    IsStorable levels c.json c.terms := by
  match cs with
  | [] => cases joined
  | [only] =>
    obtain rfl := Option.some.inj joined
    exact each only (List.mem_singleton_self only) levels (by omega)
  | first :: second :: others =>
    obtain rfl := Option.some.inj joined
    exact isStorable_all.2 ⟨by omega, fun c mem => each c mem _ (by omega)⟩

/-- Each condition on a value takes three levels. -/
theorem isStorable_within {v : Variable} (named : v.IsNamed) (r : Range) :
    ∀ c ∈ r.within v, ∀ levels, 2 < levels → IsStorable levels c.json c.terms := by
  intro c mem levels three
  rw [within, List.mem_append, Option.mem_toList, Option.mem_toList, Option.map_eq_some_iff,
    Option.map_eq_some_iff] at mem
  rcases mem with ⟨t, -, rfl⟩ | ⟨t, -, rfl⟩
  · exact isStorable_compareWith named _ t three
  · exact isStorable_compareWith named _ t three

/-- Each condition on an extent takes three levels. -/
theorem isStorable_overlaps {u v : Variable} (hu : u.IsNamed) (hv : v.IsNamed) (r : Range) :
    ∀ c ∈ r.overlaps u v, ∀ levels, 2 < levels → IsStorable levels c.json c.terms := by
  intro c mem levels three
  rw [overlaps, List.mem_append, Option.mem_toList, Option.mem_toList, Option.map_eq_some_iff,
    Option.map_eq_some_iff] at mem
  rcases mem with ⟨t, -, rfl⟩ | ⟨t, -, rfl⟩
  · exact isStorable_compareWith hu _ t three
  · exact isStorable_compareWith hv _ t three

/-- A triple that says which value a property of a variable has. -/
theorem isStorable_property {u v : Variable} (hu : u.IsNamed) (hv : v.IsNamed) (property : Iri)
    (two : 1 < levels) : IsStorable levels (Triple.mk (.variable u) (.iri property) (.variable v)).json
      (Triple.mk (.variable u) (.iri property) (.variable v)).terms :=
  isStorable_triple.2 ⟨by omega, isStorable_variable.2 ⟨by omega, hu⟩,
    isStorable_iri.2 (by omega), isStorable_variable.2 ⟨by omega, hv⟩⟩

/-- A filtered group takes eight levels. -/
theorem isStorable_filtered {triples : List Triple} {cs : List Condition} (eight : 7 < levels)
    (triple : ∀ t ∈ triples, ∀ levels, 1 < levels → IsStorable levels t.json t.terms)
    (each : ∀ c ∈ cs, ∀ levels, 2 < levels → IsStorable levels c.json c.terms) :
    IsStorable levels (filtered triples cs).json (filtered triples cs).terms := by
  refine isStorable_group.2 ⟨by omega, List.forall_mem_cons.2 ⟨?_, fun p mem => ?_⟩⟩
  · exact isStorable_basic.2 ⟨by omega, fun t mem => triple t mem _ (by omega)⟩
  · rw [Option.mem_toList, Option.map_eq_some_iff] at mem
    obtain ⟨c, joined, rfl⟩ := mem
    exact isStorable_filter.2 ⟨by omega, isStorable_all? each joined (by omega)⟩

section

variable {subject object : Variable} (hsubject : subject.IsNamed) (hobject : object.IsNamed)
  (r : Range)

include hsubject hobject

/-- The overlap takes eight levels. -/
theorem isStorable_overlapPattern (first last : Iri) (eight : 7 < levels) :
    IsStorable levels (r.overlapPattern subject object first last).json
      (r.overlapPattern subject object first last).terms := by
  have hbegin := hobject.suffixed (show "begin".toList.all Variable.isNameChar = true by decide)
  have hend := hobject.suffixed (show "end".toList.all Variable.isNameChar = true by decide)
  refine isStorable_filtered eight ?_ (r.isStorable_overlaps hbegin hend)
  refine List.forall_mem_cons.2 ⟨fun _ => isStorable_property hsubject hbegin first,
    List.forall_mem_singleton.2 fun _ => isStorable_property hsubject hend last⟩

/-- The exact date takes eight levels. -/
theorem isStorable_exactPattern (exact : Iri) (eight : 7 < levels) :
    IsStorable levels (r.exactPattern subject object exact).json
      (r.exactPattern subject object exact).terms := by
  have hexact := hobject.suffixed (show "exact".toList.all Variable.isNameChar = true by decide)
  refine isStorable_filtered eight ?_ (r.isStorable_within hexact)
  exact List.forall_mem_singleton.2 fun _ => isStorable_property hsubject hexact exact

end

/-- **A constraint can be stored.** -/
theorem isStorable_of_patterns {r : Range} {p : Properties} {subjectName objectName : String}
    {ps : List Pattern} (h : r.patterns p subjectName objectName = .ok ps) {q : Pattern}
    (mem : q ∈ ps) : IsStorable Reading.maxLevels q.json q.terms := by
  rw [patterns_eq_map_shape] at h
  obtain ⟨shape, hshape, rfl⟩ := map_eq_ok_iff.1 h
  obtain rfl := List.mem_singleton.1 mem
  obtain ⟨subject, object, readSubject, readObject, has⟩ := hasShape_of_shape hshape
  have hsubject := Variable.isNamed_of_ofText readSubject
  have hobject := Variable.isNamed_of_ofText readObject
  cases has with
  | direct lacks =>
    obtain ⟨c, joined, filter⟩ := r.exists_directPattern object
    rw [Shape.pattern, filter]
    exact isStorable_filter.2
      ⟨by decide, isStorable_all? (r.isStorable_within hobject) joined (by decide)⟩
  | overlap => exact r.isStorable_overlapPattern hsubject hobject _ _ (by decide)
  | overlapOrExact =>
    refine isStorable_union.2 ⟨by decide, List.forall_mem_cons.2
      ⟨r.isStorable_overlapPattern hsubject hobject _ _ (by decide),
        List.forall_mem_singleton.2 ?_⟩⟩
    exact r.isStorable_exactPattern hsubject hobject _ (by decide)

end

end Range

namespace Sparql
namespace Pattern

/-- The patterns that there are without putting one together by hand: the constraints, and what is
decoded from a text. -/
inductive Obtained : Pattern → Prop
  | compiled {r : Range} {properties : Properties} {subject object : String} {ps : List Pattern}
      {p : Pattern} (h : r.patterns properties subject object = .ok ps) (mem : p ∈ ps) : Obtained p
  | decoded {text : String} {p : Pattern} (h : Json.decode ofReading text = .ok p) : Obtained p

/-- **Every pattern that can be obtained can be stored.** -/
theorem Obtained.isStorable {p : Pattern} (h : p.Obtained) :
    IsStorable Reading.maxLevels p.json p.terms := by
  cases h with
  | compiled h mem => exact Range.isStorable_of_patterns h mem
  | decoded h => exact isStorable_of_ofReading (Json.decode_eq_ok_iff.1 h).1

/-- **Stored patterns are read back.**  Whatever is compiled for a range or decoded from a text, in
whatever form it stands there, is stored as a text from which the same pattern is decoded. -/
theorem decode_text_of_obtained {p : Pattern} (h : p.Obtained) :
    Json.decode ofReading p.json.text = .ok p :=
  p.decode_json_iff.2 h.isStorable

/-- The statement of `decode_text_of_obtained` at a triple whose kind stands behind it, with two of
its terms as arrays, marks before a name and blanks around a node. -/
theorem decode_text_of_obtained_arrays :
    ∃ p, Json.decode ofReading ("\x7b\"triples\":[[\x7b\"value\":\"?$it\",\"type\":\"variable\"\x7d," ++
        "[1,\" ex:begin \"],[\"literal\",[\"a \\\"b\\\"\",\"ex:t\"]]]],\"type\":\"bgp\"\x7d") = .ok p ∧
      p.text = "?it ex:begin \"a \\\"b\\\"\"^^ex:t ." ∧
      Json.decode ofReading p.json.text = .ok p := by
  refine (map_eq_ok_iff.1 ?_).imp fun p ⟨hp, written⟩ =>
    ⟨hp, written, decode_text_of_obtained (.decoded hp)⟩
  decide +kernel

end Pattern
end Sparql
end DateFacet
