/-
# The key of a range

The key joins the bounds of a range by a dash between blanks, with `null` for an open side.  The
bounds have dashes of their own, but no blanks, so the first blank of a key ends its start.  And no
instant is written as `null`.  So a key names the bounds (`Range.key_eq_iff`).

So does the constraint.  The class and the names of the variables settle its shape, and whether
there is one; to that the range adds its bounds alone, and each of them can be told from the
condition that it stands in:

| shape | start | stop |
| --- | --- | --- |
| direct | the object variable is not before it | the object variable is not after it |
| overlap, with or without exact date | the end is not before it | the begin is not after it |

A pattern with one condition thus still says which side is open.
-/

import DateFacet.Proofs.ConstraintMeaning
import DateFacet.Proofs.DateVariables
import DateFacet.Proofs.Outcome

namespace DateFacet

open Outcome (bind_eq_ok_iff)
open Sparql

namespace Instant

/-- Different instants are written differently. -/
theorem text_injective : Function.Injective text := by
  intro t u h
  have read := t.ofText_text .dayFirst
  rw [h, ofText_text] at read
  exact (Except.ok.inj read).symm

/-- Different instants have different literals. -/
@[simp] theorem literal_inj {t u : Instant} : t.literal = u.literal ↔ t = u := by
  constructor
  · intro h
    exact text_injective (Literal.mk.inj h).1
  · exact congrArg literal

/-- A bound as it stands in a key. -/
def boundText (t : Option Instant) : String := (t.map text).getD "null"

/-- No instant is written as an open side is. -/
theorem text_ne_null (t : Instant) : t.text ≠ "null" := by
  intro h
  have letter : 'n' ∈ t.text.toList := by
    rw [h]
    decide
  rw [toList_text] at letter
  exact t.notMem_chars (by decide) (by decide) letter

/-- Different bounds are written differently in a key. -/
theorem boundText_injective : Function.Injective boundText := by
  intro a b h
  cases a with
  | none =>
    cases b with
    | none => rfl
    | some u => exact absurd h.symm u.text_ne_null
  | some t =>
    cases b with
    | none => exact absurd h t.text_ne_null
    | some u => exact congrArg some (text_injective h)

/-- There is no blank in a bound, so a key is taken apart at its first one. -/
theorem blank_notMem_boundText (t : Option Instant) : ' ' ∉ (boundText t).toList := by
  cases t with
  | none => decide
  | some t =>
    rw [boundText, Option.map_some, Option.getD_some, toList_text]
    exact t.notMem_chars (by decide) (by decide)

end Instant

namespace Range

open Instant (boundText boundText_injective blank_notMem_boundText)

/-- A key is the start, a dash between blanks, and the stop. -/
theorem toList_key (r : Range) :
    r.key.toList =
      (boundText r.start).toList ++ ' ' :: '-' :: ' ' :: (boundText r.stop).toList := by
  rw [key, String.toList_append, String.toList_append, List.append_assoc]
  rfl

/-- **A key names the bounds.** -/
theorem key_eq_iff (r s : Range) : r.key = s.key ↔ r.start = s.start ∧ r.stop = s.stop := by
  constructor
  · intro h
    have chars := congrArg String.toList h
    rw [toList_key, toList_key] at chars
    obtain ⟨start, stop⟩ := Text.append_mark_inj (blank_notMem_boundText _)
      (blank_notMem_boundText _) chars
    obtain ⟨-, stop⟩ := List.cons.inj stop
    obtain ⟨-, stop⟩ := List.cons.inj stop
    exact ⟨boundText_injective (String.toList_injective start),
      boundText_injective (String.toList_injective stop)⟩
  · rintro ⟨start, stop⟩
    rw [key, key, startText, stopText, start, stop]
    rfl

/-! ## The bounds in a constraint -/

/-- Two limits, either of which may be missing, can be told from their joint condition: each has a
sign of its own. -/
theorem limits_inj {u v u' v' : Variable} {sign other : Comparison} (ne : sign ≠ other)
    {a b a' b' : Option Instant}
    (h : Condition.all?
        ((a.map (compareWith u sign)).toList ++ (b.map (compareWith v other)).toList) =
      Condition.all?
        ((a'.map (compareWith u' sign)).toList ++ (b'.map (compareWith v' other)).toList)) :
    a = a' ∧ b = b' := by
  -- A lone comparison is no conjunction, and by its sign it is the one limit and not the other.
  cases a <;> cases b <;> cases a' <;> cases b' <;>
    simp_all [Condition.all?, compareWith, ne.symm]

variable {r s : Range}

/-- The conditions on a value determine the bounds. -/
theorem within_inj {u v : Variable}
    (h : Condition.all? (r.within u) = Condition.all? (s.within v)) :
    r.start = s.start ∧ r.stop = s.stop :=
  limits_inj (by decide) h

/-- The conditions on an extent determine the bounds. -/
theorem overlaps_inj {u v u' v' : Variable}
    (h : Condition.all? (r.overlaps u v) = Condition.all? (s.overlaps u' v')) :
    r.start = s.start ∧ r.stop = s.stop :=
  (limits_inj (by decide) h).symm

/-- A filtered group says which condition it has. -/
theorem filtered_inj {ts us : List Triple} {cs ds : List Condition}
    (h : filtered ts cs = filtered us ds) : Condition.all? cs = Condition.all? ds := by
  obtain ⟨-, filters⟩ := List.cons.inj (Pattern.group.inj h)
  refine Option.map_injective (fun _ _ => Pattern.filter.inj) ?_
  exact Option.head?_toList.symm.trans ((congrArg List.head? filters).trans Option.head?_toList)

/-- The constraint on the object variable is a filter. -/
theorem exists_directPattern (r : Range) (object : Variable) :
    ∃ c, Condition.all? (r.within object) = some c ∧ r.directPattern object = .filter c := by
  obtain ⟨c, hc, -⟩ := Condition.exists_all? (r.within_ne_nil object)
  refine ⟨c, hc, ?_⟩
  rw [directPattern, hc]
  rfl

/-! ## The shape of a constraint -/

/-- What the class and the names of the variables settle of a constraint. -/
inductive Shape
  /-- The object variable lies in the range. -/
  | direct (object : Variable)
  /-- The extent overlaps the range. -/
  | overlap (subject object : Variable) (first last : Iri)
  /-- The extent overlaps the range, or the exact date lies in it. -/
  | overlapOrExact (subject object : Variable) (first last exact : Iri)

namespace Shape

/-- The constraint of this shape for a range. -/
def pattern (r : Range) : Shape → Pattern
  | direct object => r.directPattern object
  | overlap subject object first last => r.overlapPattern subject object first last
  | overlapOrExact subject object first last exact =>
    .union [r.overlapPattern subject object first last, r.exactPattern subject object exact]

/-- **The bounds can be told from a constraint**, whatever its shape. -/
theorem pattern_inj {shape other : Shape} (h : shape.pattern r = other.pattern s) :
    r.start = s.start ∧ r.stop = s.stop := by
  cases shape with
  | direct object =>
    -- Without triples there is always a condition, for one of the sides is bounded.
    obtain ⟨c, hc, filter⟩ := r.exists_directPattern object
    rw [pattern, filter] at h
    cases other with
    | direct object' =>
      obtain ⟨d, hd, filter'⟩ := s.exists_directPattern object'
      rw [pattern, filter'] at h
      refine within_inj (u := object) (v := object') ?_
      rw [hc, hd, Pattern.filter.inj h]
    | overlap | overlapOrExact => cases h
  | overlap =>
    cases other with
    | direct object' =>
      obtain ⟨_, -, filter'⟩ := s.exists_directPattern object'
      cases h.trans filter'
    | overlap => exact overlaps_inj (filtered_inj h)
    | overlapOrExact => cases h
  | overlapOrExact =>
    cases other with
    | direct object' =>
      obtain ⟨_, -, filter'⟩ := s.exists_directPattern object'
      cases h.trans filter'
    | overlap => cases h
    | overlapOrExact =>
      obtain ⟨extents, -⟩ := List.cons.inj (Pattern.union.inj h)
      exact overlaps_inj (filtered_inj extents)

end Shape

/-- **A constraint that one range has, every range has in the same shape.** -/
theorem exists_shape {p : Properties} {subjectName objectName : String} {ps : List Pattern}
    (h : r.patterns p subjectName objectName = .ok ps) :
    ∃ shape : Shape, ∀ s : Range, s.patterns p subjectName objectName = .ok [shape.pattern s] := by
  by_cases lacks : p.beginDate = none ∨ p.endDate = none
  · obtain ⟨-, -, h⟩ := bind_eq_ok_iff.1 h
    obtain ⟨subject, hsubject, h⟩ := bind_eq_ok_iff.1 h
    obtain ⟨object, hobject, -⟩ := bind_eq_ok_iff.1 h
    exact ⟨.direct object, fun s => s.patterns_of_no_extent hsubject hobject lacks⟩
  · obtain ⟨hasBegin, hasEnd⟩ := not_or.1 lacks
    obtain ⟨beginText, hbegin⟩ := Option.ne_none_iff_exists'.1 hasBegin
    obtain ⟨endText, hend⟩ := Option.ne_none_iff_exists'.1 hasEnd
    obtain ⟨_, _, exactText⟩ := p
    obtain rfl : _ = some beginText := hbegin
    obtain rfl : _ = some endText := hend
    obtain ⟨subject, object, first, last, exact, hsubject, hobject, hfirst, hlast, hexact⟩ :=
      exists_of_patterns_extent h
    cases exact with
    | none =>
      exact ⟨.overlap subject object first last, fun s =>
        s.patterns_of_extent hsubject hobject hfirst hlast hexact⟩
    | some exact =>
      exact ⟨.overlapOrExact subject object first last exact, fun s =>
        s.patterns_of_extent hsubject hobject hfirst hlast hexact⟩

/-- The labels of a range play no part in its constraint, nor in the failure to find one. -/
theorem patterns_congr (h : r.start = s.start ∧ r.stop = s.stop) (p : Properties)
    (subjectName objectName : String) :
    r.patterns p subjectName objectName = s.patterns p subjectName objectName := by
  cases r
  cases s
  obtain ⟨rfl, rfl⟩ := h
  rfl

/-- Ranges with one constraint between them, for whatever classes, have the same bounds. -/
theorem bounds_eq_of_patterns {p q : Properties} {subjectName objectName : String}
    {subjectName' objectName' : String} {ps : List Pattern}
    (hr : r.patterns p subjectName objectName = .ok ps)
    (hs : s.patterns q subjectName' objectName' = .ok ps) :
    r.start = s.start ∧ r.stop = s.stop := by
  obtain ⟨shape, compiled⟩ := exists_shape hr
  obtain ⟨other, compiled'⟩ := exists_shape hs
  obtain rfl := Except.ok.inj (hr.symm.trans (compiled r))
  exact Shape.pattern_inj (List.cons.inj (Except.ok.inj (hs.symm.trans (compiled' s)))).1

/-- **The key of a range identifies its constraint.**  Two ranges have the same key exactly if they
have the same bounds.  Then they have the same constraint for every class, or fail in the same way,
whatever their labels.  And if one has a constraint for a class, so has the other, and theirs are
the same only if the keys are, even if the other is for a class with other properties. -/
theorem key_iff_patterns (r s : Range) :
    (r.key = s.key ↔ r.start = s.start ∧ r.stop = s.stop) ∧
      (r.key = s.key → ∀ p subjectName objectName,
        r.patterns p subjectName objectName = s.patterns p subjectName objectName) ∧
      ∀ p subjectName objectName ps, r.patterns p subjectName objectName = .ok ps →
        (∃ qs, s.patterns p subjectName objectName = .ok qs ∧ (r.key = s.key ↔ ps = qs)) ∧
          ∀ q subjectName' objectName', s.patterns q subjectName' objectName' = .ok ps →
            r.key = s.key := by
  refine ⟨r.key_eq_iff s, fun same => patterns_congr ((r.key_eq_iff s).1 same), ?_⟩
  intro p subjectName objectName ps hr
  have distinct : ∀ q subjectName' objectName',
      s.patterns q subjectName' objectName' = .ok ps → r.key = s.key :=
    fun q subjectName' objectName' hs => (r.key_eq_iff s).2 (bounds_eq_of_patterns hr hs)
  obtain ⟨shape, compiled⟩ := exists_shape hr
  refine ⟨⟨[shape.pattern s], compiled s, fun same => ?_, fun same => ?_⟩, distinct⟩
  · have congr := patterns_congr ((r.key_eq_iff s).1 same) p subjectName objectName
    exact Except.ok.inj (hr.symm.trans (congr.trans (compiled s)))
  · exact distinct p subjectName objectName (same ▸ compiled s)

/-- The range up to an instant. -/
def upTo (t : Instant) : Range := ⟨none, some t, "", t.text, bounded_stop t, ordered_stop t⟩

/-- The statements of `key_iff_patterns` at the ranges from 1850 on and up to then.  Another label
makes no difference to the constraint, and the other side does. -/
theorem key_iff_patterns_1850 :
    ∃ t ps qs, t.text = "1850-01-01T00:00:00Z" ∧
      (since t).patterns ⟨some "ex:begin", some "ex:end", none⟩ "it" "date" = .ok ps ∧
      { since t with startLabel := "now" }.patterns
        ⟨some "ex:begin", some "ex:end", none⟩ "it" "date" = .ok ps ∧
      (upTo t).patterns ⟨some "ex:begin", some "ex:end", none⟩ "it" "date" = .ok qs ∧
      ps ≠ qs := by
  obtain ⟨t, ht⟩ : ∃ t : Instant, t.text = "1850-01-01T00:00:00Z" :=
    ⟨.midnight 1850 1 1 (by decide) (by decide) (by decide), by decide +kernel⟩
  obtain ⟨first, hfirst⟩ : ∃ i, Iri.ofText "ex:begin" = .ok i := ⟨_, rfl⟩
  obtain ⟨last, hlast⟩ : ∃ i, Iri.ofText "ex:end" = .ok i := ⟨_, rfl⟩
  have compiled := patterns_of_extent (since t)
    (by decide +kernel : Variable.ofText "it" = .ok ⟨"it"⟩)
    (by decide +kernel : Variable.ofText "date" = .ok ⟨"date"⟩) hfirst hlast
    (rfl : Option.mapM Iri.ofText none = .ok none)
  obtain ⟨alike, labelled, -⟩ := key_iff_patterns (since t) { since t with startLabel := "now" }
  have relabelled := (labelled (alike.2 ⟨rfl, rfl⟩) _ _ _).symm.trans compiled
  obtain ⟨apart, -, others⟩ := key_iff_patterns (since t) (upTo t)
  obtain ⟨⟨qs, hqs, same⟩, -⟩ := others _ _ _ _ compiled
  refine ⟨t, _, qs, ht, compiled, relabelled, hqs, fun eq => ?_⟩
  obtain ⟨start, -⟩ := apart.1 (same.2 eq)
  cases start

end Range
end DateFacet
