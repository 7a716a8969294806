/-
# Ranges of instants

A range has a first and a last instant, both of which belong to it.  Either side may be open, but
not both, and the start does not come after the stop; the type holds the proofs.  Each side also
has a label, which is for display only.
-/

import DateFacet.Error
import DateFacet.Instant.Order
import DateFacet.Instant.Written

namespace DateFacet

/-- A window of time with its ends, of which one may be missing. -/
structure Range where
  start : Option Instant
  stop : Option Instant
  startLabel : String
  stopLabel : String
  isBounded : start.isSome ∨ stop.isSome
  start_le_stop : ∀ s ∈ start, ∀ e ∈ stop, s ≤ e
  deriving DecidableEq

namespace Range

/-- A start alone bounds a range. -/
theorem bounded_start (s : Instant) : (some s).isSome ∨ (none : Option Instant).isSome :=
  .inl rfl

/-- A stop alone bounds a range. -/
theorem bounded_stop (e : Instant) : (none : Option Instant).isSome ∨ (some e).isSome :=
  .inr rfl

/-- A start and a stop bound a range. -/
theorem bounded_both (s e : Instant) : (some s).isSome ∨ (some e).isSome :=
  .inl rfl

/-- A start alone is in order. -/
theorem ordered_start (s : Instant) :
    ∀ first ∈ some s, ∀ last ∈ (none : Option Instant), first ≤ last :=
  fun _ _ _ hlast => nomatch hlast

/-- A stop alone is in order. -/
theorem ordered_stop (e : Instant) :
    ∀ first ∈ (none : Option Instant), ∀ last ∈ some e, first ≤ last :=
  fun _ hfirst => nomatch hfirst

/-- Two bounds are in order if the first does not come after the second. -/
theorem ordered_both {s e : Instant} (h : s ≤ e) :
    ∀ first ∈ some s, ∀ last ∈ some e, first ≤ last := by
  intro first hfirst last hlast
  obtain rfl := Option.some.inj hfirst
  obtain rfl := Option.some.inj hlast
  exact h

/-- The range with these bounds and labels. -/
def ofBounds (start stop : Option Instant) (startLabel stopLabel : String) :
    Except ValidationError Range :=
  match start, stop with
  | none, none => .error (.invalidDate "" "")
  | some s, none =>
    .ok ⟨some s, none, startLabel, stopLabel, bounded_start s, ordered_start s⟩
  | none, some e =>
    .ok ⟨none, some e, startLabel, stopLabel, bounded_stop e, ordered_stop e⟩
  | some s, some e =>
    if h : s ≤ e then
      .ok ⟨some s, some e, startLabel, stopLabel, bounded_both s e, ordered_both h⟩
    else .error (.rangeOrder s.text e.text)

/-- The written start. -/
def startText (r : Range) : Option String := r.start.map Instant.text

/-- The written stop. -/
def stopText (r : Range) : Option String := r.stop.map Instant.text

/-- The name of a range among others: its bounds as they are written. -/
def key (r : Range) : String :=
  r.startText.getD "null" ++ " - " ++ r.stopText.getD "null"

/-- The instant lies in the range. -/
def contains (r : Range) (t : Instant) : Bool :=
  r.start.all (· ≤ t) && r.stop.all (t ≤ ·)

/-- A range contains what lies on the inner side of each of its bounds. -/
theorem contains_iff (r : Range) (t : Instant) :
    r.contains t = true ↔ (∀ start ∈ r.start, start ≤ t) ∧ ∀ stop ∈ r.stop, t ≤ stop := by
  rw [contains, Bool.and_eq_true, Option.all_eq_true, Option.all_eq_true]
  simp

/-- The range as an interval. -/
def text (r : Range) : String :=
  match r.start, r.stop with
  | some s, some e => "[" ++ s.text ++ " → " ++ e.text ++ "]"
  | some s, none => "[" ++ s.text ++ " → ∞)"
  | none, some e => "(∞ → " ++ e.text ++ "]"
  | none, none => "(∞ → ∞)"

end Range
end DateFacet
