/-
# Every range is a window

Bounds are a window if there is one at all and the start does not come after the stop.  The check
of `Range.ofBounds` accepts windows and nothing else.  It stands at two of the ways to a range: at
the bounds that a program gives, and at those that are read from JSON.

The third way goes around it.  A reader checks the dates that the user typed, and what it widens
them to is put together unchecked.  Widening keeps the order, so the check would have passed, and
would have given the same range (`RangeReader.range_eq_ok_iff`).  That a range is a window follows
for all three ways from the check, and not from the proofs that a range carries.
-/

import DateFacet.Proofs.Chronology
import DateFacet.Proofs.Outcome
import DateFacet.Stored

namespace DateFacet

open Outcome (bind_eq_ok_iff mapError_eq_ok_iff exists_of_mem_mapM)

namespace Range

/-- At least one bound is there, and the start does not come after the stop. -/
def IsWindow (start stop : Option Instant) : Prop :=
  (start.isSome ∨ stop.isSome) ∧ ∀ s ∈ start, ∀ e ∈ stop, s ≤ e

/-- Without a bound there is no window. -/
theorem not_isWindow_none : ¬ IsWindow none none := by simp [IsWindow]

/-- Two bounds are a window if they are in order. -/
theorem isWindow_both {s e : Instant} : IsWindow (some s) (some e) ↔ s ≤ e := by simp [IsWindow]

/-- A window stays one where its bounds are moved without a change of their order. -/
theorem IsWindow.map {start stop : Option Instant} (h : IsWindow start stop)
    {f g : Instant → Instant} (ordered : ∀ s e, s ≤ e → f s ≤ g e) :
    IsWindow (start.map f) (stop.map g) := by
  refine ⟨by simpa using h.1, fun s hs e he => ?_⟩
  obtain ⟨first, hfirst, rfl⟩ := Option.map_eq_some_iff.1 hs
  obtain ⟨last, hlast, rfl⟩ := Option.map_eq_some_iff.1 he
  exact ordered first last (h.2 first hfirst last hlast)

/-! ## The check -/

/-- The check gives a window as a range. -/
theorem ofBounds_of_isWindow {start stop : Option Instant} (h : IsWindow start stop)
    (startLabel stopLabel : String) : ofBounds start stop startLabel stopLabel =
      .ok ⟨start, stop, startLabel, stopLabel, h.1, h.2⟩ := by
  match start, stop with
  | none, none => exact absurd h not_isWindow_none
  | some s, none => rfl
  | none, some e => rfl
  | some s, some e => exact dif_pos (isWindow_both.1 h)

/-- The check accepts windows only. -/
theorem isWindow_of_ofBounds {start stop : Option Instant} {startLabel stopLabel : String}
    {r : Range} (h : ofBounds start stop startLabel stopLabel = .ok r) : IsWindow start stop := by
  match start, stop with
  | none, none => cases h
  | some s, none => exact ⟨bounded_start s, ordered_start s⟩
  | none, some e => exact ⟨bounded_stop e, ordered_stop e⟩
  | some s, some e =>
    rw [ofBounds] at h
    split at h
    · next ordered => exact isWindow_both.2 ordered
    · cases h

/-- **The check accepts exactly the windows**, and keeps their bounds and labels. -/
theorem ofBounds_eq_ok_iff {start stop : Option Instant} {startLabel stopLabel : String}
    {r : Range} : ofBounds start stop startLabel stopLabel = .ok r ↔
      IsWindow start stop ∧ r.start = start ∧ r.stop = stop ∧ r.startLabel = startLabel ∧
        r.stopLabel = stopLabel := by
  constructor
  · intro h
    have window := isWindow_of_ofBounds h
    rw [ofBounds_of_isWindow window] at h
    obtain rfl := Except.ok.inj h
    exact ⟨window, rfl, rfl, rfl, rfl⟩
  · rintro ⟨window, rfl, rfl, rfl, rfl⟩
    exact ofBounds_of_isWindow window _ _

end Range

/-! ## Readers -/

namespace RangeReader

open Range (IsWindow)

variable {reader : RangeReader} {input : RawInput} {start stop : Option Instant}

/-- The range around two dates, widened first and checked then. -/
def checkWidened (reader : RangeReader) (start stop : Option Instant) :
    Except ValidationError Range :=
  Range.ofBounds (start.map reader.widenStart) (stop.map reader.widenStop)
    ((start.map reader.label).getD "") ((stop.map reader.label).getD "")

/-- **A window stays one when it is widened**, so the check passes. -/
theorem checkWidened_of_isWindow (reader : RangeReader) (h : IsWindow start stop) :
    reader.checkWidened start stop = .ok (reader.widen start stop h.1 h.2) := by
  have window : IsWindow (start.map reader.widenStart) (stop.map reader.widenStop) :=
    h.map fun _ _ => reader.widenStart_le_widenStop
  exact Range.ofBounds_of_isWindow window _ _

/-- Dates that are a window give a range. -/
theorem range_of_isWindow (hstart : reader.readSide input.start = start)
    (hstop : reader.readSide input.stop = stop) (h : IsWindow start stop) :
    reader.range input = .ok (reader.widen start stop h.1 h.2) := by
  rw [range, hstart, hstop]
  match start, stop with
  | none, none => exact absurd h Range.not_isWindow_none
  | some s, none => rfl
  | none, some e => rfl
  | some s, some e => exact dif_pos (Range.isWindow_both.1 h)

/-- Only dates that are a window give a range. -/
theorem isWindow_of_range {r : Range} (hstart : reader.readSide input.start = start)
    (hstop : reader.readSide input.stop = stop) (h : reader.range input = .ok r) :
    IsWindow start stop := by
  rw [range, hstart, hstop] at h
  match start, stop with
  | none, none => cases h
  | some s, none => exact ⟨Range.bounded_start s, Range.ordered_start s⟩
  | none, some e => exact ⟨Range.bounded_stop e, Range.ordered_stop e⟩
  | some s, some e =>
    simp only at h
    split at h
    · next ordered => exact Range.isWindow_both.2 ordered
    · cases h

/-- **A reader gives what the check would give.**  It accepts the dates that are a window as they
are typed, and widens them to the range that the check makes of them. -/
theorem range_eq_ok_iff {r : Range} : reader.range input = .ok r ↔
    IsWindow (reader.readSide input.start) (reader.readSide input.stop) ∧
      reader.checkWidened (reader.readSide input.start) (reader.readSide input.stop) = .ok r := by
  constructor
  · intro h
    have window := isWindow_of_range rfl rfl h
    rw [range_of_isWindow rfl rfl window] at h
    exact ⟨window, (reader.checkWidened_of_isWindow window).trans h⟩
  · rintro ⟨window, h⟩
    rw [reader.checkWidened_of_isWindow window] at h
    exact (range_of_isWindow rfl rfl window).trans h

/-- The bounds of a range that was read are the widened dates. -/
theorem bounds_of_range {r : Range} (h : reader.range input = .ok r) :
    r.start = (reader.readSide input.start).map reader.widenStart ∧
      r.stop = (reader.readSide input.stop).map reader.widenStop := by
  obtain ⟨-, checked⟩ := range_eq_ok_iff.1 h
  obtain ⟨-, start, stop, -, -⟩ := Range.ofBounds_eq_ok_iff.1 checked
  exact ⟨start, stop⟩

/-- The labels of a range that was read are those of its dates, and empty without one. -/
theorem labels_of_range {r : Range} (h : reader.range input = .ok r) :
    r.startLabel = ((reader.readSide input.start).map reader.label).getD "" ∧
      r.stopLabel = ((reader.readSide input.stop).map reader.label).getD "" := by
  obtain ⟨-, checked⟩ := range_eq_ok_iff.1 h
  obtain ⟨-, -, -, startLabel, stopLabel⟩ := Range.ofBounds_eq_ok_iff.1 checked
  exact ⟨startLabel, stopLabel⟩

end RangeReader

/-! ## Stored ranges -/

namespace Json

/-- A text is decoded if its value is and nothing follows the value. -/
theorem decode_eq_ok_iff {α : Type} {read : Reading → Decoded α} {text : String} {a : α} :
    decode read text = .ok a ↔
      read (Document.ofText text).root = .ok a ∧ (Document.ofText text).isClosed = true := by
  rw [decode, bind_eq_ok_iff]
  constructor
  · rintro ⟨b, hb, h⟩
    split at h
    · next closed =>
      obtain rfl := Except.ok.inj h
      exact ⟨hb, closed⟩
    · cases h
  · rintro ⟨h, closed⟩
    exact ⟨a, h, if_pos closed⟩

/-- Each item of a list that is decoded is decoded from a part of it. -/
theorem exists_of_mem_list {α : Type} {read : Reading → Decoded α} {reading : Reading}
    {as : List α} (h : reading.list read = .ok as) {a : α} (mem : a ∈ as) :
    ∃ item, read item = .ok a := by
  cases reading with
  | array items =>
    obtain ⟨item, -, hitem⟩ := exists_of_mem_mapM h mem
    exact ⟨item, hitem⟩
  | _ => cases h

end Json

namespace Range

open Json (Reading)

/-- What is decoded as a range has passed the check. -/
theorem exists_ofBounds_of_ofReading {reading : Reading} {r : Range}
    (h : ofReading reading = .ok r) :
    ∃ start stop startLabel stopLabel, ofBounds start stop startLabel stopLabel = .ok r := by
  obtain ⟨draft, -, h⟩ := bind_eq_ok_iff.1 h
  exact ⟨_, _, _, _, mapError_eq_ok_iff.1 h⟩

/-! ## All ways to a range -/

/-- The ranges that there are: from bounds, from texts of a user, and from JSON, alone or in a
list. -/
inductive Obtained : Range → Prop
  | checked {start stop : Option Instant} {startLabel stopLabel : String} {r : Range}
      (h : ofBounds start stop startLabel stopLabel = .ok r) : Obtained r
  | read {reader : RangeReader} {input : RawInput} {r : Range}
      (h : reader.range input = .ok r) : Obtained r
  | decoded {text : String} {r : Range} (h : Json.decode ofReading text = .ok r) : Obtained r
  | listed {text : String} {rs : List Range} {r : Range}
      (h : Json.decode (Reading.list ofReading) text = .ok rs) (mem : r ∈ rs) : Obtained r

/-- Every range is one that the check has given, or would have given. -/
theorem Obtained.exists_ofBounds {r : Range} (h : Obtained r) :
    ∃ start stop startLabel stopLabel, ofBounds start stop startLabel stopLabel = .ok r := by
  cases h with
  | checked h => exact ⟨_, _, _, _, h⟩
  | read h => exact ⟨_, _, _, _, (RangeReader.range_eq_ok_iff.1 h).2⟩
  | decoded h => exact exists_ofBounds_of_ofReading (Json.decode_eq_ok_iff.1 h).1
  | listed h mem =>
    obtain ⟨item, hitem⟩ := Json.exists_of_mem_list (Json.decode_eq_ok_iff.1 h).1 mem
    exact exists_ofBounds_of_ofReading hitem

/-- **Every range is a window, whichever way it came.**  The check accepts exactly the windows and
changes nothing in them.  A reader of any granularity, order and label form gives what the check
makes of the widened dates, if the typed dates are a window.  So a range that is obtained from
bounds, from texts or from JSON is a window, and the check gives it back from its own bounds and
labels. -/
theorem obtained_isWindow :
    (∀ start stop startLabel stopLabel r, ofBounds start stop startLabel stopLabel = .ok r ↔
      IsWindow start stop ∧ r.start = start ∧ r.stop = stop ∧ r.startLabel = startLabel ∧
        r.stopLabel = stopLabel) ∧
    (∀ (reader : RangeReader) (input : RawInput) (r : Range), reader.range input = .ok r ↔
      IsWindow (reader.readSide input.start) (reader.readSide input.stop) ∧
        reader.checkWidened (reader.readSide input.start) (reader.readSide input.stop) = .ok r) ∧
    ∀ r, Obtained r →
      IsWindow r.start r.stop ∧ ofBounds r.start r.stop r.startLabel r.stopLabel = .ok r := by
  refine ⟨fun _ _ _ _ _ => ofBounds_eq_ok_iff, fun _ _ _ => RangeReader.range_eq_ok_iff,
    fun r h => ?_⟩
  obtain ⟨start, stop, startLabel, stopLabel, h⟩ := h.exists_ofBounds
  obtain ⟨window, rfl, rfl, rfl, rfl⟩ := ofBounds_eq_ok_iff.1 h
  exact ⟨window, h⟩

/-- The hypothesis of `obtained_isWindow` holds of a range that is stored as an array, with an
offset that takes its start into the year before. -/
theorem obtained_isWindow_stored :
    ∃ r, Json.decode ofReading "[\"1850-01-01T00:30+01:00\",null]" = .ok r ∧
      r.start.map Instant.year = some 1849 ∧
      ofBounds r.start r.stop r.startLabel r.stopLabel = .ok r := by
  have decoded : Json.decode ofReading "[\"1850-01-01T00:30+01:00\",null]" =
      .ok ⟨some ⟨1849, 12, 31, 23, 30, 0, by decide, by decide, by decide, by decide, by decide,
        by decide⟩, none, "", "", bounded_start _, ordered_start _⟩ := by decide +kernel
  exact ⟨_, decoded, rfl, (obtained_isWindow.2.2 _ (.decoded decoded)).2⟩

end Range
end DateFacet
