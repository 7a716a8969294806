/-
# Day numbers follow the calendar

The count of days is a formula; the calendar is a rule for the day after a day, `dayAfter`.  This
module says that the formula counts along the rule, `dayNumber_dayAfter`, and that nothing is
skipped or counted twice, `dayNumber_counts_calendar`.

No leap year is looked at for it.  Dates have an order of their own, by year, month and day, and
day numbers keep it (`dayNumber_lt_iff`).  The day after is the next date in that order
(`lt_dayAfter`, `not_lt_dayAfter`), and since every number has a date, it has the next number.
-/

import DateFacet.Proofs.DayCount

namespace DateFacet

/-- Dates come in the order of their years, then of their months, then of their days. -/
instance : LT CivilDate := ⟨fun a b =>
  a.year < b.year ∨ a.year = b.year ∧ (a.month < b.month ∨ a.month = b.month ∧ a.day < b.day)⟩

namespace CivilDate

/-- Dates are compared by their years, then by their months, then by their days. -/
theorem lt_iff {a b : CivilDate} : a < b ↔
    a.year < b.year ∨ a.year = b.year ∧ (a.month < b.month ∨ a.month = b.month ∧ a.day < b.day) :=
  Iff.rfl

/-- Of two dates that differ, one comes first. -/
theorem lt_or_eq_or_gt (a b : CivilDate) : a < b ∨ a = b ∨ b < a := by
  obtain ⟨year, month, day⟩ := a
  obtain ⟨year', month', day'⟩ := b
  rw [lt_iff, lt_iff, mk.injEq]
  simp only
  omega

end CivilDate

namespace Calendar

/-! ## Day numbers keep the order of dates -/

/-- The days before a year that starts in March, counted from March of year 0. -/
def daysBeforeMarchYear (year : Int) : Int :=
  365 * year + year / 4 - year / 100 + year / 400

/-- A March year has 366 days if its February is one of a leap year; later years come after all of
them. -/
theorem daysBeforeMarchYear_add_le {a b : Int} (h : a < b) :
    daysBeforeMarchYear a + (if isLeapYear (a + 1) then 366 else 365) ≤ daysBeforeMarchYear b := by
  unfold daysBeforeMarchYear
  split
  · next leap =>
    rw [isLeapYear_iff] at leap
    omega
  · omega

namespace MarchDay

variable {m n : MarchDay}

/-- The March year of the day, with its era. -/
def marchYear (m : MarchDay) : Int := m.year + m.era * 400

/-- The number of a day counts the days before its March year and those of it. -/
theorem number_eq (m : MarchDay) :
    m.number = daysBeforeMarchYear m.marchYear + m.dayOfYear - 719468 := by
  have hyear := m.year_mem
  unfold number marchYear daysBeforeMarchYear daysBeforeYearOfEra
  omega

/-- A day of a March year is less than the length of the year. -/
theorem dayOfYear_lt (m : MarchDay) :
    m.dayOfYear < if isLeapYear (m.marchYear + 1) then 366 else 365 := by
  obtain ⟨⟨-, last⟩, leap⟩ := m.dayOfYear_mem
  have year : m.marchYear + 1 = m.year + 1 + m.era * 400 := by unfold marchYear; omega
  rw [year, isLeapYear_add_era]
  split
  · omega
  · next common =>
    have notLast : m.dayOfYear ≠ 365 := fun h => common (leap h)
    omega

/-- A day of an earlier year comes first. -/
theorem number_lt_of_marchYear (h : m.marchYear < n.marchYear) : m.number < n.number := by
  have years := daysBeforeMarchYear_add_le h
  have inYear := m.dayOfYear_lt
  have first := n.dayOfYear_mem.1.1
  rw [number_eq, number_eq]
  omega

/-- In one year, a day of an earlier month comes first. -/
theorem number_lt_of_month (hyear : m.marchYear = n.marchYear) (h : m.month < n.month) :
    m.number < n.number := by
  have length := daysInMarchMonth_le m.year m.month
  have inMonth := m.day_mem
  have first := n.day_mem.1
  rw [number_eq, number_eq, hyear]
  unfold dayOfYear
  unfold daysBeforeMarchMonth at *
  omega

/-- In one month, an earlier day comes first. -/
theorem number_lt_of_day (hyear : m.marchYear = n.marchYear) (hmonth : m.month = n.month)
    (h : m.day < n.day) : m.number < n.number := by
  rw [number_eq, number_eq, hyear, dayOfYear, dayOfYear, hmonth]
  omega

/-- The order of dates is that of years, months and days that are counted from March. -/
theorem lt_of_date_lt (h : m.date < n.date) : m.marchYear < n.marchYear ∨
    m.marchYear = n.marchYear ∧ (m.month < n.month ∨ m.month = n.month ∧ m.day < n.day) := by
  have hm := m.month_mem
  have hn := n.month_mem
  have hday := m.day_mem.1
  have hday' := n.day_mem.1
  rw [CivilDate.lt_iff] at h
  simp only [date, marchYear] at *
  split at h <;> split at h <;> omega

end MarchDay

/-- An earlier date has the smaller number. -/
theorem dayNumber_lt_of_lt {a b : CivilDate} (ha : Exists a) (hb : Exists b) (h : a < b) :
    dayNumber a < dayNumber b := by
  obtain ⟨m, rfl⟩ := MarchDay.exists_date_eq ha
  obtain ⟨n, rfl⟩ := MarchDay.exists_date_eq hb
  rw [m.dayNumber_date, n.dayNumber_date]
  rcases MarchDay.lt_of_date_lt h with year | ⟨year, month | ⟨month, day⟩⟩
  · exact MarchDay.number_lt_of_marchYear year
  · exact MarchDay.number_lt_of_month year month
  · exact MarchDay.number_lt_of_day year month day

/-- **Day numbers have the order of their dates.** -/
theorem dayNumber_lt_iff {a b : CivilDate} (ha : Exists a) (hb : Exists b) :
    dayNumber a < dayNumber b ↔ a < b := by
  refine ⟨fun h => ?_, dayNumber_lt_of_lt ha hb⟩
  rcases CivilDate.lt_or_eq_or_gt a b with lt | rfl | gt
  · exact lt
  · exact absurd h (lt_irrefl _)
  · exact absurd h (dayNumber_lt_of_lt hb ha gt).not_gt

/-! ## The day after -/

/-- The day after: the next day of the month, or the first of the next month after the last day of
a month, or January 1st of the next year after the last day of a year. -/
def dayAfter (date : CivilDate) : CivilDate :=
  if date.day < daysInMonth date.year date.month then ⟨date.year, date.month, date.day + 1⟩
  else if date.month < 12 then ⟨date.year, date.month + 1, 1⟩
  else ⟨date.year + 1, 1, 1⟩

/-- Every month has a first day. -/
theorem daysInMonth_pos (year : Int) {month : Nat} (h : 1 ≤ month ∧ month ≤ 12) :
    1 ≤ daysInMonth year month := by
  obtain ⟨lo, hi⟩ := h
  interval_cases month
  case «2» =>
    change 1 ≤ if isLeapYear year then 29 else 28
    split <;> decide
  all_goals simp [daysInMonth]

/-- The day after a date is a date again. -/
theorem exists_dayAfter {date : CivilDate} (h : Exists date) : Exists (dayAfter date) := by
  obtain ⟨first, last, -, -⟩ := h
  unfold dayAfter
  split
  · next inMonth => exact ⟨first, last, Nat.le_add_left 1 _, inMonth⟩
  · split
    · next inYear =>
      exact ⟨Nat.le_add_left 1 _, inYear, le_rfl, daysInMonth_pos _ ⟨Nat.le_add_left 1 _, inYear⟩⟩
    · exact ⟨le_rfl, (by decide : 1 ≤ 12), le_rfl, by simp⟩

/-- The day after comes later. -/
theorem lt_dayAfter (date : CivilDate) : date < dayAfter date := by
  rw [CivilDate.lt_iff, dayAfter]
  split
  · simp
  · split <;> simp

/-- No date lies between a day and the day after it. -/
theorem not_lt_dayAfter {a b : CivilDate} (ha : Exists a) (hb : Exists b) (h : a < b) :
    ¬ b < dayAfter a := by
  obtain ⟨-, aLast, -, -⟩ := ha
  obtain ⟨bFirst, bLast, bFirstDay, bLastDay⟩ := hb
  have sameMonth : b.year = a.year → b.month = a.month → b.day ≤ daysInMonth a.year a.month := by
    intro year month
    rwa [← year, ← month]
  intro h'
  rw [CivilDate.lt_iff] at h h'
  unfold dayAfter at h'
  split at h'
  · simp only at h'
    omega
  · split at h' <;> simp only at h' <;> omega

/-- **The day after has the next number.** -/
theorem dayNumber_dayAfter {date : CivilDate} (h : Exists date) :
    dayNumber (dayAfter date) = dayNumber date + 1 := by
  have later := dayNumber_lt_of_lt h (exists_dayAfter h) (lt_dayAfter date)
  -- The next number has a date.  It comes after the day, so it does not come before the day after.
  have next := exists_civilOfDay (dayNumber date + 1)
  have after : date < civilOfDay (dayNumber date + 1) := by
    rw [← dayNumber_lt_iff h next, dayNumber_civilOfDay]
    omega
  have notBefore := not_lt_dayAfter h next after
  rw [← dayNumber_lt_iff next (exists_dayAfter h), dayNumber_civilOfDay] at notBefore
  omega

/-- **The count of days is the calendar.**  It starts with 1970-01-01, goes up by one from each
date to the day after it, and has one date of the calendar for each number: from a date to its
number and back, and from a number to its date and back, nothing changes. -/
theorem dayNumber_counts_calendar :
    dayNumber ⟨1970, 1, 1⟩ = 0 ∧
      (∀ date, Exists date → Exists (dayAfter date) ∧
        dayNumber (dayAfter date) = dayNumber date + 1 ∧ civilOfDay (dayNumber date) = date) ∧
      ∀ n, Exists (civilOfDay n) ∧ dayNumber (civilOfDay n) = n :=
  ⟨by decide,
    fun _ h => ⟨exists_dayAfter h, dayNumber_dayAfter h, civilOfDay_dayNumber h⟩,
    fun n => ⟨exists_civilOfDay n, dayNumber_civilOfDay n⟩⟩

/-- The hypothesis of `dayNumber_counts_calendar` holds of the last day of February in a century
year, and March comes after it. -/
theorem dayNumber_counts_calendar_1900 : Exists ⟨1900, 2, 28⟩ ∧
    dayNumber ⟨1900, 3, 1⟩ = dayNumber ⟨1900, 2, 28⟩ + 1 := by
  obtain ⟨-, counts, -⟩ := dayNumber_counts_calendar
  exact ⟨by decide, (counts ⟨1900, 2, 28⟩ (by decide)).2.1⟩

end Calendar
end DateFacet
