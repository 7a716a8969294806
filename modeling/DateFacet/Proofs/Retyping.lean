/-
# A range can be typed again

A reader widens what was typed, and labels each side.  Neither changes when it is done to a widened
instant again: the first second of a day is on that day, and the second from which a year is counted
is in that year.  So the two texts of a range, typed into the reader that gave it, give the same
range once more (`range_texts`); an open side is typed as nothing.

The check of the order does not stand in the way.  It looks at what was typed to the second, and the
bounds of a range are in order as well.
-/

import DateFacet.Proofs.Chronology
import DateFacet.Proofs.RangeWindow
import DateFacet.Proofs.RoundTrip

namespace DateFacet
namespace RangeReader

open Range (IsWindow)

variable (reader : RangeReader)

/-! ## Widening a second time -/

/-- Widening a start again changes nothing. -/
@[simp] theorem widenStart_widenStart (t : Instant) :
    reader.widenStart (reader.widenStart t) = reader.widenStart t := by
  unfold widenStart
  cases reader.granularity <;> rfl

@[simp] theorem widenStop_widenStop (t : Instant) :
    reader.widenStop (reader.widenStop t) = reader.widenStop t := by
  unfold widenStop
  cases reader.granularity <;> rfl

/-- A widened start has the label of what was typed. -/
@[simp] theorem label_widenStart (t : Instant) :
    reader.label (reader.widenStart t) = reader.label t := by
  unfold label widenStart
  cases reader.granularity with
  | year => rfl
  | day => cases reader.dayLabel <;> rfl

/-- A widened stop has the label of what was typed. -/
@[simp] theorem label_widenStop (t : Instant) :
    reader.label (reader.widenStop t) = reader.label t := by
  unfold label widenStop
  cases reader.granularity with
  | year => rfl
  | day => cases reader.dayLabel <;> rfl

/-- **A range depends on what was typed only through its bounds and labels.**  Other dates on either
side, widened and labelled to the same, give the same range. -/
theorem checkWidened_map {f g : Instant → Instant}
    (first : ∀ t, reader.widenStart (f t) = reader.widenStart t)
    (firstLabel : ∀ t, reader.label (f t) = reader.label t)
    (last : ∀ t, reader.widenStop (g t) = reader.widenStop t)
    (lastLabel : ∀ t, reader.label (g t) = reader.label t) (start stop : Option Instant) :
    reader.checkWidened (start.map f) (stop.map g) = reader.checkWidened start stop := by
  simp only [checkWidened, Option.map_map, Function.comp_def, first, firstLabel, last, lastLabel]

/-- **Widening what is widened gives the same range**, with the same labels. -/
theorem checkWidened_widened (start stop : Option Instant) :
    reader.checkWidened (start.map reader.widenStart) (stop.map reader.widenStop) =
      reader.checkWidened start stop :=
  reader.checkWidened_map reader.widenStart_widenStart reader.label_widenStart
    reader.widenStop_widenStop reader.label_widenStop start stop

/-! ## Typing a range -/

/-- The text of an instant is read as this instant, and nothing as nothing. -/
theorem readSide_text (t : Option Instant) : reader.readSide (t.map Instant.text) = t := by
  cases t with
  | none => rfl
  | some t =>
    rw [Option.map_some, readSide_eq_bind, Option.bind_some, Instant.ofText_text, Except.toOption]

/-- **A range that was read is read again from its own texts.**  For a reader of any granularity,
order and label form, whatever was typed: the written bounds of the range that it gave, with nothing
for an open side, give the same range, its bounds and its labels. -/
theorem range_texts {reader : RangeReader} {input : RawInput} {r : Range}
    (h : reader.range input = .ok r) : reader.range ⟨r.startText, r.stopText⟩ = .ok r := by
  obtain ⟨-, checked⟩ := range_eq_ok_iff.1 h
  obtain ⟨-, start, stop, -, -⟩ := Range.ofBounds_eq_ok_iff.1 checked
  rw [range_eq_ok_iff, Range.startText, Range.stopText, readSide_text, readSide_text]
  refine ⟨⟨r.isBounded, r.start_le_stop⟩, ?_⟩
  rw [start, stop, checkWidened_widened]
  exact checked

/-- The hypothesis of `range_texts` holds of a start whose offset takes it back into 1849 and of the
midnight that follows it, in a reader of years.  Typed again, the range starts with the second from
which 1849 is counted and stops with the last one of 1850. -/
theorem range_texts_1849 :
    ∃ r, (ofGranularity .year).range ⟨some "1850-01-01T00:30+01:00", some "1850"⟩ = .ok r ∧
      (ofGranularity .year).range ⟨some "1849-01-01T00:00:01Z", some "1850-12-31T23:59:59Z"⟩ =
        .ok r := by
  have start : (ofGranularity .year).readSide (some "1850-01-01T00:30+01:00") =
      some (.ofReal (by decide : Instant.IsReal 1849 12 31 23 30 0)) := by decide +kernel
  have stop : (ofGranularity .year).readSide (some "1850") =
      some (.ofReal (by decide : Instant.IsReal 1850 1 1 0 0 0)) := by decide +kernel
  have read := @range_of_isWindow _ ⟨some "1850-01-01T00:30+01:00", some "1850"⟩ _ _ start stop
    (Range.isWindow_both.2 (by decide))
  exact ⟨_, read, range_texts read⟩

end RangeReader
end DateFacet
