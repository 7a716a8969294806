/-
# The proleptic Gregorian calendar

Years are numbered astronomically: year 0 is there, and year -1 comes before it.  The leap
rule reaches back over all of them.

Days are counted from 1970-01-01.  Both directions go through a year that starts in March, so
that the leap day is its last day and the months before it have one pattern of lengths,
31, 30, 31, 30, 31 over and over, which `(153 m + 2) / 5` sums up.  Four hundred such years, an
era, always have 146097 days.

| quantity | range | meaning |
| --- | --- | --- |
| era | any | number of whole 400-year spans from March of year 0 |
| year of era | 0 to 399 | March year within the era |
| day of era | 0 to 146096 | day within the era |
| day of year | 0 to 365 | day within the March year |
| March month | 0 to 11 | 0 is March, 11 is February |
-/

namespace DateFacet

/-- A year, a month and a day, which need not exist. -/
structure CivilDate where
  year : Int
  month : Nat
  day : Nat
  deriving DecidableEq

namespace Calendar

/-- The leap rule: every fourth year, without the full centuries that 400 does not divide. -/
def isLeapYear (year : Int) : Bool :=
  year % 4 = 0 && (year % 100 ≠ 0 || year % 400 = 0)

/-- The number of days of a month; a number that names no month has none. -/
def daysInMonth (year : Int) (month : Nat) : Nat :=
  match month with
  | 1 | 3 | 5 | 7 | 8 | 10 | 12 => 31
  | 4 | 6 | 9 | 11 => 30
  | 2 => if isLeapYear year then 29 else 28
  | _ => 0

/-- No month is longer than 31 days. -/
theorem daysInMonth_le (year : Int) (month : Nat) : daysInMonth year month ≤ 31 := by
  unfold daysInMonth; split <;> try split
  all_goals omega

/-- The year begins with a month of 31 days. -/
@[simp] theorem daysInMonth_january (year : Int) : daysInMonth year 1 = 31 := rfl

/-- The year ends with a month of 31 days. -/
@[simp] theorem daysInMonth_december (year : Int) : daysInMonth year 12 = 31 := rfl

/-- The month counted from March. -/
def marchMonth (month : Int) : Int :=
  (month + 9) % 12

/-- The days of a March year before the first of a month counted from March. -/
def daysBeforeMarchMonth (marchMonth : Int) : Int :=
  (153 * marchMonth + 2) / 5

/-- The days of an era before a year of it. -/
def daysBeforeYearOfEra (yearOfEra : Int) : Int :=
  365 * yearOfEra + yearOfEra / 4 - yearOfEra / 100

/-- The number of a day, counted from 1970-01-01. -/
def dayNumber (date : CivilDate) : Int :=
  let marchYear := if date.month ≤ 2 then date.year - 1 else date.year
  let era := marchYear / 400
  let yearOfEra := marchYear - era * 400
  let dayOfYear := daysBeforeMarchMonth (marchMonth date.month) + date.day - 1
  era * 146097 + (daysBeforeYearOfEra yearOfEra + dayOfYear) - 719468

/-- The year of an era that a day of it falls in.  A year has 365 days, once the leap days
before the day of the era are taken out. -/
def yearOfEra (dayOfEra : Int) : Int :=
  (dayOfEra - dayOfEra / 1460 + dayOfEra / 36524 - dayOfEra / 146096) / 365

/-- The date of a day number. -/
def civilOfDay (number : Int) : CivilDate :=
  let marchDays := number + 719468
  let era := marchDays / 146097
  let dayOfEra := marchDays - era * 146097
  let year := yearOfEra dayOfEra
  let dayOfYear := dayOfEra - daysBeforeYearOfEra year
  let marchMonth := (5 * dayOfYear + 2) / 153
  let day := dayOfYear - daysBeforeMarchMonth marchMonth + 1
  let month := if marchMonth < 10 then marchMonth + 3 else marchMonth - 9
  ⟨year + era * 400 + (if month ≤ 2 then 1 else 0), month.toNat, day.toNat⟩

/-- A date of the calendar: its month has the day. -/
def Exists (date : CivilDate) : Prop :=
  1 ≤ date.month ∧ date.month ≤ 12 ∧
    1 ≤ date.day ∧ date.day ≤ daysInMonth date.year date.month

instance (date : CivilDate) : Decidable (Exists date) := by
  unfold Exists; infer_instance

/-- The count starts with 1970. -/
example : dayNumber ⟨1970, 1, 1⟩ = 0 := by decide

/-- The day before March of a year that 400 divides is a leap day. -/
example : civilOfDay (dayNumber ⟨-400, 2, 29⟩) = ⟨-400, 2, 29⟩ := by decide

end Calendar
end DateFacet
