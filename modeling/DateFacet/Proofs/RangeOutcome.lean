/-
# What becomes of two typed sides

A side that is absent, blank or refused has no date (`HasNoDate`); any other side names one
(`Names`).  What a reader makes of two sides follows from their dates alone:

| start | stop | outcome |
| --- | --- | --- |
| no date | no date | `invalidDate`, with the two texts as they were typed |
| `s` | `e` before `s` | `rangeOrder`, with the two dates as they are written |
| otherwise | | a range, open at the sides without a date |

The dates are compared to the second, before they are widened.  That decides: two dates in the wrong
order are refused even where the first second of the one's year comes before the last second of the
other's.

A label has at least one character (`label_ne_empty`), so the label of a side is empty exactly where
the side is open.
-/

import DateFacet.Proofs.RangeWindow

namespace DateFacet

namespace RangeReader

open Range (IsWindow)

variable {reader : RangeReader} {input : RawInput} {raw : Option String} {t : Instant} {r : Range}

/-! ## One side -/

/-- The text of a side names an instant. -/
def Names (reader : RangeReader) (raw : Option String) (t : Instant) : Prop :=
  ∃ text ∈ raw, Instant.ofText reader.slashes text = .ok t

/-- A side is absent, blank, or a text that is refused. -/
def HasNoDate (reader : RangeReader) (raw : Option String) : Prop :=
  ∀ text ∈ raw, Text.trim text = "" ∨ ∃ fault, Instant.ofText reader.slashes text = .error fault

/-- The date of a side is what its text names. -/
theorem readSide_eq_some_iff : reader.readSide raw = some t ↔ reader.Names raw t := by
  rw [readSide_eq_bind, Option.bind_eq_some_iff]
  refine exists_congr fun text => and_congr_right' ?_
  cases Instant.ofText reader.slashes text <;> simp [Except.toOption]

/-- A side without a date is absent, blank or refused. -/
theorem readSide_eq_none_iff : reader.readSide raw = none ↔ reader.HasNoDate raw := by
  rw [readSide_eq_bind, Option.bind_eq_none_iff]
  refine forall₂_congr fun text _ => ?_
  constructor
  · intro unread
    right
    cases outcome : Instant.ofText reader.slashes text with
    | error fault => exact ⟨fault, rfl⟩
    | ok t => simp [outcome, Except.toOption] at unread
  · rintro (blank | ⟨fault, refused⟩)
    · rw [Instant.ofText_of_blank reader.slashes blank]
      rfl
    · rw [refused]
      rfl

/-! ## The sides of a range -/

/-- A label has a character. -/
theorem label_ne_empty (reader : RangeReader) (t : Instant) : reader.label t ≠ "" := by
  unfold label
  cases reader.granularity with
  | year =>
    rw [yearLabel, Ne, String.ofList_eq_empty_iff]
    exact Text.signedNumeral_ne_nil t.year
  | day =>
    rw [DayLabel.text, Ne, String.ofList_eq_empty_iff]
    -- Each form has a dash or a slash in it.
    cases reader.dayLabel <;> simp [DayLabel.chars, Instant.dateChars]

/-- The label of a side is empty where there is no date. -/
theorem label_getD_eq_empty_iff {date : Option Instant} :
    (date.map reader.label).getD "" = "" ↔ date = none := by
  cases date with
  | none => simp
  | some t => simpa using reader.label_ne_empty t

/-- A range is open at the sides without a date, and has empty labels there. -/
theorem open_iff_of_range (h : reader.range input = .ok r) :
    ((r.start = none ↔ reader.readSide input.start = none) ∧
      (r.startLabel = "" ↔ reader.readSide input.start = none)) ∧
    (r.stop = none ↔ reader.readSide input.stop = none) ∧
      (r.stopLabel = "" ↔ reader.readSide input.stop = none) := by
  obtain ⟨start, stop⟩ := bounds_of_range h
  obtain ⟨startLabel, stopLabel⟩ := labels_of_range h
  rw [start, stop, startLabel, stopLabel]
  exact ⟨⟨Option.map_eq_none_iff, label_getD_eq_empty_iff⟩, Option.map_eq_none_iff,
    label_getD_eq_empty_iff⟩

/-! ## Outcomes -/

/-- The dates of two sides are not a window if there are none, or if they are in the wrong order. -/
theorem not_isWindow_iff {start stop : Option Instant} : ¬ IsWindow start stop ↔
    (start = none ∧ stop = none) ∨ ∃ s ∈ start, ∃ e ∈ stop, e < s := by
  cases start <;> cases stop <;> simp [IsWindow]

/-- Only sides without a date are refused for having none. -/
theorem range_eq_invalidDate_iff {start stop : String} :
    reader.range input = .error (.invalidDate start stop) ↔
      (reader.readSide input.start = none ∧ reader.readSide input.stop = none) ∧
        start = input.start.getD "" ∧ stop = input.stop.getD "" := by
  unfold range
  split
  · next hstart hstop => simp [hstart, hstop, eq_comm]
  · next hstart hstop => simp [hstart]
  · next hstart hstop => simp [hstop]
  · next hstart hstop => split <;> simp [hstart]

/-- Only dates in the wrong order are refused for their order. -/
theorem range_eq_rangeOrder_iff {start stop : String} :
    reader.range input = .error (.rangeOrder start stop) ↔
      ∃ s ∈ reader.readSide input.start, ∃ e ∈ reader.readSide input.stop, e < s ∧
        start = s.text ∧ stop = e.text := by
  unfold range
  split
  · next hstart hstop => simp [hstart]
  · next hstart hstop => simp [hstop]
  · next hstart hstop => simp [hstart]
  · next s e hstart hstop =>
    split
    · next ordered => simp [hstart, hstop, ordered.not_gt]
    · next reversed => simp [hstart, hstop, not_le.1 reversed, eq_comm]

/-- Dates that are a window have a range. -/
theorem exists_range_iff : (∃ r, reader.range input = .ok r) ↔
    IsWindow (reader.readSide input.start) (reader.readSide input.stop) :=
  ⟨fun ⟨_, h⟩ => isWindow_of_range rfl rfl h, fun window => ⟨_, range_of_isWindow rfl rfl window⟩⟩

/-- **A range is refused exactly where it should be.**  For a reader of any granularity, order and
label form and any two sides: without a date on either side the input is refused with its texts as
they were typed, an absent one as the empty text; with two dates of which the second comes before
the first it is refused with the two dates as they are written, and it does not matter what they
would have been widened to; every other input is a range.  A side of the range is open, and its
label empty, exactly if the side was absent, blank or refused. -/
theorem range_outcome (reader : RangeReader) (input : RawInput) :
    (∀ start stop, reader.range input = .error (.invalidDate start stop) ↔
      (reader.HasNoDate input.start ∧ reader.HasNoDate input.stop) ∧
        start = input.start.getD "" ∧ stop = input.stop.getD "") ∧
    (∀ start stop, reader.range input = .error (.rangeOrder start stop) ↔
      ∃ s e, reader.Names input.start s ∧ reader.Names input.stop e ∧ e < s ∧
        start = s.text ∧ stop = e.text) ∧
    ((∃ r, reader.range input = .ok r) ↔
      ¬ ((reader.HasNoDate input.start ∧ reader.HasNoDate input.stop) ∨
        ∃ s e, reader.Names input.start s ∧ reader.Names input.stop e ∧ e < s)) ∧
    ∀ r, reader.range input = .ok r →
      ((r.start = none ↔ reader.HasNoDate input.start) ∧
        (r.startLabel = "" ↔ reader.HasNoDate input.start)) ∧
      (r.stop = none ↔ reader.HasNoDate input.stop) ∧
        (r.stopLabel = "" ↔ reader.HasNoDate input.stop) := by
  simp only [← readSide_eq_none_iff, ← readSide_eq_some_iff]
  refine ⟨fun _ _ => range_eq_invalidDate_iff, fun start stop => ?_, ?_, fun r h => ?_⟩
  · rw [range_eq_rangeOrder_iff]
    simp only [Option.mem_def, exists_and_left]
  · rw [exists_range_iff, ← not_iff_not, not_isWindow_iff, not_not]
    simp only [Option.mem_def, exists_and_left]
  · exact open_iff_of_range h

/-- The hypothesis of `range_outcome` holds of a year between blanks with garbage on the other side,
in a reader of years.  June and January of one year are refused, although the year that they would
have been widened to is a window. -/
theorem range_outcome_years :
    (∃ r, (ofGranularity .year).range ⟨some " 1850 ", some "1851-02-30"⟩ = .ok r ∧
      r.start ≠ none ∧ r.startLabel ≠ "" ∧ r.stop = none ∧ r.stopLabel = "") ∧
    (∃ june january, (ofGranularity .year).Names (some "2021-06-01") june ∧
      (ofGranularity .year).Names (some "2021-01-01") january ∧
      (ofGranularity .year).widenStart june ≤ (ofGranularity .year).widenStop january) ∧
    (ofGranularity .year).range ⟨some "2021-06-01", some "2021-01-01"⟩ =
      .error (.rangeOrder "2021-06-01T00:00:00Z" "2021-01-01T00:00:00Z") := by
  have june : (ofGranularity .year).Names (some "2021-06-01")
      (.ofReal (by decide : Instant.IsReal 2021 6 1 0 0 0)) := ⟨_, rfl, by decide +kernel⟩
  have january : (ofGranularity .year).Names (some "2021-01-01")
      (.ofReal (by decide : Instant.IsReal 2021 1 1 0 0 0)) := ⟨_, rfl, by decide +kernel⟩
  refine ⟨?_, ⟨_, _, june, january, by decide⟩, ((range_outcome _ _).2.1 _ _).2
    ⟨_, _, june, january, by decide, by decide +kernel, by decide +kernel⟩⟩
  have start : (ofGranularity .year).readSide (some " 1850 ") =
      some (.ofReal (by decide : Instant.IsReal 1850 1 1 0 0 0)) := by decide +kernel
  have stop : (ofGranularity .year).readSide (some "1851-02-30") = none := by decide +kernel
  have read := @range_of_isWindow _ ⟨some " 1850 ", some "1851-02-30"⟩ _ _ start stop
    ⟨Range.bounded_start _, Range.ordered_start _⟩
  obtain ⟨⟨first, firstLabel⟩, last, lastLabel⟩ := (range_outcome _ _).2.2.2 _ read
  have dated : ¬ (ofGranularity .year).HasNoDate (some " 1850 ") := by
    rw [← readSide_eq_none_iff, start]
    exact Option.some_ne_none _
  have undated := readSide_eq_none_iff.1 stop
  exact ⟨_, read, dated ∘ first.1, dated ∘ firstLabel.1, last.2 undated, lastLabel.2 undated⟩

end RangeReader
end DateFacet
