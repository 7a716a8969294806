/-
# Counting days back and forth

A day number is split from the large to the small, into eras, centuries, four-year cycles, years,
months and days; `Calendar.yearOfEra` does three of these steps in one formula.  The formula is
right because a day of an era has one such splitting: `exists_yearOfEra` gives it, and
`yearOfEra_daysBefore` says that the formula finds its year.

`MarchDay` keeps the parts of a day with the proofs of their ranges.  Its number and its date are
what the two directions of the calendar turn into each other, so that both directions are known
once they are known on it: `dayNumber_civilOfDay`, `civilOfDay_dayNumber` and `exists_civilOfDay`.
-/

import DateFacet.Calendar
import Mathlib.Tactic.IntervalCases

namespace DateFacet
namespace Calendar

/-- The leap rule: every fourth year, but of the full centuries only every fourth. -/
theorem isLeapYear_iff (year : Int) :
    isLeapYear year = true ↔ year % 4 = 0 ∧ (year % 100 ≠ 0 ∨ year % 400 = 0) := by
  simp [isLeapYear]

/-- The leap rule repeats after an era. -/
theorem isLeapYear_add_era (year era : Int) :
    isLeapYear (year + era * 400) = isLeapYear year := by
  rw [Bool.eq_iff_iff, isLeapYear_iff, isLeapYear_iff]
  omega

/-! ## Years of an era -/

/-- The days before a year add up over its centuries, cycles and single years. -/
theorem daysBeforeYearOfEra_cycles {c q z : Int} (hq : 0 ≤ q ∧ q ≤ 24) (hz : 0 ≤ z ∧ z ≤ 3) :
    daysBeforeYearOfEra (100 * c + 4 * q + z) = 36524 * c + 1461 * q + 365 * z := by
  unfold daysBeforeYearOfEra
  omega

/-- **The year of a day of an era**, which is given by its century, its four-year cycle, its year
of the cycle and its day of the year.  Only the last year of a cycle has a day 365, and the last
cycle of a century has it only at the end of the era. -/
theorem yearOfEra_cycles {c q z k : Int} (hc : 0 ≤ c ∧ c ≤ 3) (hq : 0 ≤ q ∧ q ≤ 24)
    (hz : 0 ≤ z ∧ z ≤ 3) (hk : 0 ≤ k ∧ k ≤ 365) (leap : k = 365 → z = 3 ∧ (q = 24 → c = 3)) :
    yearOfEra (36524 * c + 1461 * q + 365 * z + k) = 100 * c + 4 * q + z := by
  -- The last day of an era is the only one for which the quotient by 146096 is not zero.
  by_cases last : k = 365 ∧ q = 24
  · obtain ⟨rfl, rfl⟩ := last
    obtain ⟨rfl, hc⟩ := leap rfl
    obtain rfl := hc rfl
    decide
  have century : (36524 * c + 1461 * q + 365 * z + k) / 36524 = c := by omega
  have era : (36524 * c + 1461 * q + 365 * z + k) / 146096 = 0 := by omega
  have cycle : (36524 * c + 1461 * q + 365 * z + k) / 1460 =
      25 * c + q + (24 * c + q + 365 * z + k) / 1460 := by omega
  have carry : (24 * c + q + 365 * z + k) / 1460 =
    if 1460 ≤ 24 * c + q + 365 * z + k then 1 else 0 := by split <;> omega
  rw [yearOfEra, century, era, cycle, carry]
  split <;> omega

/-- Every year of an era has its century, its four-year cycle and its year of the cycle. -/
theorem exists_cycles {year : Int} (h : 0 ≤ year ∧ year ≤ 399) :
    ∃ c q z, (0 ≤ c ∧ c ≤ 3) ∧ (0 ≤ q ∧ q ≤ 24) ∧ (0 ≤ z ∧ z ≤ 3) ∧
      year = 100 * c + 4 * q + z :=
  ⟨year / 100, year % 100 / 4, year % 4, by omega, by omega, by omega, by omega⟩

/-- **A day is found again in its year.**  A day 365 is there if the January of that March year
is one of a leap year. -/
theorem yearOfEra_daysBefore {year k : Int} (hyear : 0 ≤ year ∧ year ≤ 399)
    (hk : 0 ≤ k ∧ k ≤ 365) (leap : k = 365 → isLeapYear (year + 1) = true) :
    yearOfEra (daysBeforeYearOfEra year + k) = year := by
  obtain ⟨c, q, z, hc, hq, hz, rfl⟩ := exists_cycles hyear
  rw [daysBeforeYearOfEra_cycles hq hz]
  refine yearOfEra_cycles hc hq hz hk fun last => ?_
  have := (isLeapYear_iff _).1 (leap last)
  omega

/-- Every day of an era is in one of its years. -/
theorem exists_yearOfEra {d : Int} (lo : 0 ≤ d) (hi : d < 146097) :
    ∃ year k, (0 ≤ year ∧ year ≤ 399) ∧ (0 ≤ k ∧ k ≤ 365) ∧
      (k = 365 → isLeapYear (year + 1) = true) ∧ d = daysBeforeYearOfEra year + k := by
  obtain ⟨c, r, hc, hr, last, rfl⟩ : ∃ c r, (0 ≤ c ∧ c ≤ 3) ∧ (0 ≤ r ∧ r ≤ 36524) ∧
      (r = 36524 → c = 3) ∧ d = 36524 * c + r :=
    ⟨min (d / 36524) 3, d - 36524 * min (d / 36524) 3, by omega, by omega, by omega, by omega⟩
  obtain ⟨q, s, hq, hs, rfl⟩ : ∃ q s, (0 ≤ q ∧ q ≤ 24) ∧ (0 ≤ s ∧ s ≤ 1460) ∧
      r = 1461 * q + s := ⟨r / 1461, r % 1461, by omega, by omega, by omega⟩
  obtain ⟨z, k, hz, hk, rfl⟩ : ∃ z k, (0 ≤ z ∧ z ≤ 3) ∧ (0 ≤ k ∧ k ≤ 364 ∨ z = 3 ∧ k = 365) ∧
      s = 365 * z + k :=
    ⟨min (s / 365) 3, s - 365 * min (s / 365) 3, by omega, by omega, by omega⟩
  refine ⟨100 * c + 4 * q + z, k, by omega, by omega, fun leap => ?_, ?_⟩
  · rw [isLeapYear_iff]
    omega
  · rw [daysBeforeYearOfEra_cycles hq hz]
    omega

/-! ## Days by their place in the count -/

/-- The length of a month counted from March, in a year of an era that starts in March. -/
def daysInMarchMonth (year month : Int) : Int :=
  if month = 11 then (if isLeapYear (year + 1) then 29 else 28)
  else daysBeforeMarchMonth (month + 1) - daysBeforeMarchMonth month

/-- No month takes more days than the formula leaves for it.  February, the last month, takes fewer,
for the formula goes on as if a year had 367 days. -/
theorem daysInMarchMonth_le (year month : Int) :
    daysInMarchMonth year month ≤ daysBeforeMarchMonth (month + 1) - daysBeforeMarchMonth month := by
  unfold daysInMarchMonth
  split
  · next february =>
    subst february
    have days : daysBeforeMarchMonth (11 + 1) - daysBeforeMarchMonth 11 = 30 := by decide
    rw [days]
    split <;> decide
  · exact le_rfl

/-- No month is without a day. -/
theorem daysInMarchMonth_pos (year month : Int) : 0 < daysInMarchMonth year month := by
  unfold daysInMarchMonth daysBeforeMarchMonth
  split
  · split <;> decide
  · omega

/-- A day by its place in the count: its era, its year of the era, its month from March and its
day of the month, the last three from zero on. -/
structure MarchDay where
  era : Int
  year : Int
  month : Int
  day : Int
  year_mem : 0 ≤ year ∧ year ≤ 399
  month_mem : 0 ≤ month ∧ month ≤ 11
  day_mem : 0 ≤ day ∧ day < daysInMarchMonth year month

namespace MarchDay

/-- The day of the March year. -/
def dayOfYear (m : MarchDay) : Int := daysBeforeMarchMonth m.month + m.day

/-- The number of the day. -/
def number (m : MarchDay) : Int :=
  m.era * 146097 + (daysBeforeYearOfEra m.year + m.dayOfYear) - 719468

/-- The date of the day. -/
def date (m : MarchDay) : CivilDate :=
  ⟨m.year + m.era * 400 + (if m.month < 10 then 0 else 1),
    (if m.month < 10 then m.month + 3 else m.month - 9).toNat, (m.day + 1).toNat⟩

/-- A March year has a day 365 only if it ends in the February of a leap year. -/
theorem dayOfYear_mem (m : MarchDay) : (0 ≤ m.dayOfYear ∧ m.dayOfYear ≤ 365) ∧
    (m.dayOfYear = 365 → isLeapYear (m.year + 1) = true) := by
  have hmonth := m.month_mem
  have hday := m.day_mem
  unfold daysInMarchMonth at hday
  unfold dayOfYear
  unfold daysBeforeMarchMonth at *
  -- Only February comes to day 365, and only on its 29th.
  split at hday
  · next february =>
    rw [february]
    split at hday
    · next leap => exact ⟨by omega, fun _ => leap⟩
    · exact ⟨by omega, fun h => by omega⟩
  · exact ⟨by omega, fun h => by omega⟩

/-- The month is found again from the day of the March year. -/
theorem monthOfYear (m : MarchDay) : (5 * m.dayOfYear + 2) / 153 = m.month := by
  have hmonth := m.month_mem
  have hday := m.day_mem
  have length := daysInMarchMonth_le m.year m.month
  unfold dayOfYear
  unfold daysBeforeMarchMonth at *
  omega

/-- No month has more than 31 days. -/
theorem day_le (m : MarchDay) : m.day ≤ 30 := by
  have inMonth := m.day_mem
  have hmonth := m.month_mem
  have length := daysInMarchMonth_le m.year m.month
  unfold daysBeforeMarchMonth at length
  omega

/-- The day lies in its era. -/
theorem dayOfEra_mem (m : MarchDay) : 0 ≤ daysBeforeYearOfEra m.year + m.dayOfYear ∧
    daysBeforeYearOfEra m.year + m.dayOfYear < 146097 := by
  have hyear := m.year_mem
  obtain ⟨⟨lo, hi⟩, leap⟩ := m.dayOfYear_mem
  rw [isLeapYear_iff] at leap
  unfold daysBeforeYearOfEra
  omega

/-- The era is found again from the number. -/
theorem era_number (m : MarchDay) : (m.number + 719468) / 146097 = m.era := by
  have inEra := m.dayOfEra_mem
  unfold number
  omega

/-- **A day number gives the date of its day.** -/
theorem civilOfDay_number (m : MarchDay) : civilOfDay m.number = m.date := by
  have dayOfEra : m.number + 719468 - m.era * 146097 =
      daysBeforeYearOfEra m.year + m.dayOfYear := by unfold number; omega
  have year := yearOfEra_daysBefore m.year_mem m.dayOfYear_mem.1 m.dayOfYear_mem.2
  have dayOfYear : daysBeforeYearOfEra m.year + m.dayOfYear - daysBeforeYearOfEra m.year =
      m.dayOfYear := by omega
  have day : m.dayOfYear - daysBeforeMarchMonth m.month = m.day := by
    unfold MarchDay.dayOfYear
    omega
  have hmonth := m.month_mem
  simp only [civilOfDay, m.era_number, dayOfEra, year, dayOfYear, m.monthOfYear, day, date]
  congr 1
  split <;> split <;> omega

/-- **The date of a day gives its number.** -/
theorem dayNumber_date (m : MarchDay) : dayNumber m.date = m.number := by
  have hyear := m.year_mem
  have hmonth := m.month_mem
  have hday := m.day_mem.1
  have month : marchMonth m.date.month = m.month := by
    simp only [date, marchMonth]
    split <;> omega
  have marchYear : (if m.date.month ≤ 2 then m.date.year - 1 else m.date.year) =
      m.year + m.era * 400 := by
    simp only [date]
    split <;> split <;> omega
  have day : (m.date.day : Int) = m.day + 1 := by simp only [date]; omega
  have era : (m.year + m.era * 400) / 400 = m.era := by omega
  have year : m.year + m.era * 400 - m.era * 400 = m.year := by omega
  simp only [dayNumber, month, marchYear, day, era, year, number, dayOfYear]
  omega

/-- A month counted from March has the length that the calendar gives it. -/
theorem daysInMonth_date (m : MarchDay) :
    (daysInMonth m.date.year m.date.month : Int) = daysInMarchMonth m.year m.month := by
  obtain ⟨era, year, month, day, -, ⟨lo, hi⟩, -⟩ := m
  have leap : isLeapYear (year + era * 400 + 1) = isLeapYear (year + 1) := by
    rw [show year + era * 400 + 1 = year + 1 + era * 400 by omega, isLeapYear_add_era]
  interval_cases month
  case «11» =>
    simp only [date, daysInMarchMonth]
    change ((if isLeapYear (year + era * 400 + 1) = true then 29 else 28 : Nat) : Int) = _
    rw [leap]
    split <;> rfl
  all_goals rfl

/-- **The date of a day exists.** -/
theorem exists_date (m : MarchDay) : Exists m.date := by
  have hday := m.day_mem
  have hmonth := m.month_mem
  have length := m.daysInMonth_date
  have month : 1 ≤ m.date.month ∧ m.date.month ≤ 12 := by
    simp only [date]
    split <;> omega
  have day : m.date.day = (m.day + 1).toNat := rfl
  exact ⟨month.1, month.2, by omega, by omega⟩

/-- Every number is that of a day. -/
theorem exists_number (n : Int) : ∃ m : MarchDay, m.number = n := by
  obtain ⟨year, k, hyear, hk, leap, hd⟩ :=
    exists_yearOfEra (d := (n + 719468) % 146097) (by omega) (by omega)
  have hmonth : 0 ≤ (5 * k + 2) / 153 ∧ (5 * k + 2) / 153 ≤ 11 := by omega
  have hday : 0 ≤ k - daysBeforeMarchMonth ((5 * k + 2) / 153) ∧
      k - daysBeforeMarchMonth ((5 * k + 2) / 153) < daysInMarchMonth year ((5 * k + 2) / 153) := by
    unfold daysInMarchMonth daysBeforeMarchMonth
    by_cases last : k = 365
    · rw [if_pos (leap last), last]
      decide
    · split
      · split <;> omega
      · omega
  refine ⟨⟨(n + 719468) / 146097, year, (5 * k + 2) / 153,
    k - daysBeforeMarchMonth ((5 * k + 2) / 153), hyear, hmonth, hday⟩, ?_⟩
  simp only [number, dayOfYear]
  omega

/-- Every date of the calendar is that of a day. -/
theorem exists_date_eq {date : CivilDate} (h : Exists date) : ∃ m : MarchDay, m.date = date := by
  obtain ⟨year, month, day⟩ := date
  obtain ⟨hlo, hhi, dlo, dhi⟩ := h
  simp only at hlo hhi dlo dhi
  have hmonth : 0 ≤ ((month : Int) + 9) % 12 ∧ ((month : Int) + 9) % 12 ≤ 11 := by omega
  -- The first of the month is there whatever the day; it knows the length of its month, and so
  -- makes room for the day itself.
  let first : MarchDay := ⟨(if month ≤ 2 then year - 1 else year) / 400,
    (if month ≤ 2 then year - 1 else year) % 400, ((month : Int) + 9) % 12, 0,
    by omega, hmonth, le_rfl, daysInMarchMonth_pos _ _⟩
  have hfirst : first.date = ⟨year, month, 1⟩ := by
    simp only [MarchDay.date, first]
    congr 1
    · split <;> split <;> omega
    · split <;> omega
  have length := first.daysInMonth_date
  rw [hfirst] at length
  simp only at length
  refine ⟨{ first with day := day - 1, day_mem := ⟨by omega, by rw [← length]; omega⟩ }, ?_⟩
  simp only [MarchDay.date, CivilDate.mk.injEq] at hfirst ⊢
  exact ⟨hfirst.1, hfirst.2.1, by omega⟩

end MarchDay

/-! ## From a number to its date and back -/

/-- **The date of a day number has that number.** -/
@[simp] theorem dayNumber_civilOfDay (n : Int) : dayNumber (civilOfDay n) = n := by
  obtain ⟨m, rfl⟩ := MarchDay.exists_number n
  rw [m.civilOfDay_number, m.dayNumber_date]

/-- **The number of a date of the calendar has that date.** -/
theorem civilOfDay_dayNumber {date : CivilDate} (h : Exists date) :
    civilOfDay (dayNumber date) = date := by
  obtain ⟨m, rfl⟩ := MarchDay.exists_date_eq h
  rw [m.dayNumber_date, m.civilOfDay_number]

/-- **The date of a day number is one of the calendar.** -/
theorem exists_civilOfDay (n : Int) : Exists (civilOfDay n) := by
  obtain ⟨m, rfl⟩ := MarchDay.exists_number n
  rw [m.civilOfDay_number]
  exact m.exists_date

/-- The year of a day number lies in its era or is the one after it. -/
theorem year_civilOfDay_mem (n : Int) :
    (n + 719468) / 146097 * 400 ≤ (civilOfDay n).year ∧
      (civilOfDay n).year ≤ (n + 719468) / 146097 * 400 + 400 := by
  obtain ⟨m, rfl⟩ := MarchDay.exists_number n
  have hyear := m.year_mem
  rw [m.civilOfDay_number, m.era_number]
  simp only [MarchDay.date]
  split <;> omega

end Calendar
end DateFacet
