/-
# What a range that was read contains

A reader widens the dates that were typed, and a range compares instants with what they were
widened to.  For the user that is a matter of days or of years:

| granularity | an instant is contained |
| --- | --- |
| day | if its day is not before the day of the start nor after that of the stop |
| year | if its year is not before that of the start nor after that of the stop |

with one exception at year granularity: the midnight at which the first year begins is left out,
because a year is counted from the second after it.

A day is meant as a number on the count of days, and the widened start of a day is compared by its
fields; that these are the same comparison is `Instant.daysSinceEpoch_le_iff`, which comes down to
the order of dates.
-/

import DateFacet.Proofs.Positions
import DateFacet.Proofs.RangeWindow

namespace DateFacet

namespace Instant

/-! ## Widened instants -/

/-- What comes after midnight of a day is of this day or of a later one. -/
theorem startOfDay_le_iff {s t : Instant} :
    s.startOfDay ≤ t ↔ s.daysSinceEpoch ≤ t.daysSinceEpoch := by
  rw [daysSinceEpoch_le_iff, le_iff_not_lt, lt_iff, CivilDate.lt_iff]
  simp only [startOfDay, midnight, date]
  omega

/-- What comes before the last second of a day is of this day or of an earlier one. -/
theorem le_endOfDay_iff {t e : Instant} :
    t ≤ e.endOfDay ↔ t.daysSinceEpoch ≤ e.daysSinceEpoch := by
  have hhour := t.hour_le
  have hminute := t.minute_le
  have hsecond := t.second_le
  rw [daysSinceEpoch_le_iff, le_iff_not_lt, lt_iff, CivilDate.lt_iff]
  simp only [endOfDay, date]
  omega

/-- What comes after the first second of a year is of this year or of a later one, and is not the
midnight before that second. -/
theorem startOfYear_le_iff {s t : Instant} :
    s.startOfYear ≤ t ↔ s.year ≤ t.year ∧ ofDate s.year 1 1 ≠ .ok t := by
  have hmonth := t.month_mem
  have hday := t.day_mem.1
  have real : IsReal s.year 1 1 0 0 0 :=
    ⟨s.year_le, by decide, by simp, by decide, by decide, by decide⟩
  rw [ofDate, ne_eq, ofFields_eq_ok_iff, le_iff_not_lt, lt_iff]
  simp only [startOfYear, real, true_and]
  omega

/-- What comes before the last second of a year is of this year or of an earlier one. -/
theorem le_endOfYear_iff {t e : Instant} : t ≤ e.endOfYear ↔ t.year ≤ e.year := by
  obtain ⟨-, hmonth, hday, hhour, hminute, hsecond⟩ := t.isReal
  have lastDay := Calendar.daysInMonth_le t.year t.month
  rw [le_iff_not_lt, lt_iff]
  simp only [endOfYear]
  omega

end Instant

namespace RangeReader

/-- A range that was read contains what lies between the widened dates. -/
theorem contains_iff_widened {reader : RangeReader} {input : RawInput} {r : Range}
    (h : reader.range input = .ok r) (t : Instant) : r.contains t = true ↔
      (∀ s ∈ reader.readSide input.start, reader.widenStart s ≤ t) ∧
        ∀ e ∈ reader.readSide input.stop, t ≤ reader.widenStop e := by
  obtain ⟨start, stop⟩ := bounds_of_range h
  rw [Range.contains_iff, start, stop]
  simp only [Option.mem_map, forall_exists_index, and_imp, forall_apply_eq_imp_iff₂]

/-- **A range that was read contains the days, or the years, that were meant.**  At day granularity
an instant is contained exactly if its day is neither before the day of the start nor after that of
the stop.  At year granularity it is contained exactly if its year is neither before that of the
start nor after that of the stop, and it is not the midnight with which the year of the start
begins.  A side without a date sets no limit. -/
theorem contains_range_iff {reader : RangeReader} {input : RawInput} {r : Range}
    (h : reader.range input = .ok r) (t : Instant) :
    (reader.granularity = .day → (r.contains t = true ↔
      (∀ s ∈ reader.readSide input.start, s.daysSinceEpoch ≤ t.daysSinceEpoch) ∧
        ∀ e ∈ reader.readSide input.stop, t.daysSinceEpoch ≤ e.daysSinceEpoch)) ∧
    (reader.granularity = .year → (r.contains t = true ↔
      (∀ s ∈ reader.readSide input.start,
        s.year ≤ t.year ∧ Instant.ofDate s.year 1 1 ≠ .ok t) ∧
        ∀ e ∈ reader.readSide input.stop, t.year ≤ e.year)) := by
  rw [contains_iff_widened h]
  constructor
  · intro day
    simp only [widenStart, widenStop, day, Instant.startOfDay_le_iff, Instant.le_endOfDay_iff]
  · intro year
    simp only [widenStart, widenStop, year, Instant.startOfYear_le_iff, Instant.le_endOfYear_iff]

/-- The hypotheses of `contains_range_iff` hold of a start whose offset takes it back into 1849: the
years from then on are contained, a month of 1849 among them, but not the midnight before. -/
theorem contains_range_iff_1849 :
    ∃ r, (ofGranularity .year).range ⟨some "1850-01-01T00:30+01:00", some " "⟩ = .ok r ∧
      r.contains (.midnight 1849 6 1 (by decide) (by decide) (by decide)) = true ∧
      r.contains (.midnight 1849 1 1 (by decide) (by decide) (by decide)) = false := by
  have start : (ofGranularity .year).readSide (some "1850-01-01T00:30+01:00") =
      some ⟨1849, 12, 31, 23, 30, 0, by decide, by decide, by decide, by decide, by decide,
        by decide⟩ := by decide +kernel
  have stop : (ofGranularity .year).readSide (some " ") = none := by decide +kernel
  have read := @range_of_isWindow _ ⟨some "1850-01-01T00:30+01:00", some " "⟩ _ _ start stop
    ⟨Range.bounded_start _, Range.ordered_start _⟩
  have contains t := (contains_range_iff read t).2 rfl
  simp only [start, stop] at contains
  refine ⟨_, read, (contains _).2 ?_, Bool.eq_false_iff.2 fun h => ?_⟩
  · simp [Instant.midnight, Instant.ofDate, Instant.ofFields_eq_ok_iff]
  · exact ((contains _).1 h).1 _ rfl |>.2 rfl

end RangeReader
end DateFacet
