/-
# The calendar in machine words

`DateFacet.Calendar` counts days with integers of any size.  A machine has 64 bits for a number and
eight for a month or a day.  What it does with a number that does not fit is a matter of the machine:
it may stop, wrap around or do something else, and a `Machine` is any way to go on.

A `Number` is what a machine has reckoned, and its `+`, `-`, `*`, `/` and `%` are those of the
machine, one step each.  So the formulas below are the formulas of the calendar again, step by step.
Division drops the fraction, towards zero; only `floorDiv` and `floorMod` round down, as the division
of the calendar does.

Both directions of the count are exact on every machine: `dayNumber_exact` and `civilOfDay_exact`.
Since a machine may stop wherever a number does not fit, this says that all of them do.
-/

import DateFacet.Instant.Timeline
import DateFacet.Proofs.DayCount

namespace DateFacet

open Instant (Fits64)

/-- How a machine goes on where a number does not fit; `none` if it stops there. -/
structure Machine where
  /-- What a step gives whose exact result has more than 64 bits. -/
  overflow : Int → Option Int
  /-- What is left of a number that is cut down to eight bits and has more. -/
  cut : Int → Option Nat

namespace Machine

/-- The machine that stops at the first number that does not fit. -/
def strict : Machine := ⟨fun _ => none, fun _ => none⟩

/-- The machine that keeps the low bits of a number, as two's complement reads them. -/
def wrapping : Machine :=
  ⟨fun n => some ((n + 9223372036854775808) % 18446744073709551616 - 9223372036854775808),
    fun n => some (n % 256).toNat⟩

variable {m : Machine}

/-- The result of a step, given the exact one. -/
def word (m : Machine) (n : Int) : Option Int := if Fits64 n then some n else m.overflow n

/-- A number cut down to eight bits. -/
def byte (m : Machine) (n : Int) : Option Nat :=
  if 0 ≤ n ∧ n ≤ 255 then some n.toNat else m.cut n

/-- A number from 0 to 255 is kept in a byte. -/
theorem byte_exact {n : Int} (lo : 0 ≤ n) (hi : n ≤ 255) : m.byte n = some n.toNat :=
  if_pos ⟨lo, hi⟩

/-- What a machine has reckoned: a number, or nothing if it stopped on the way. -/
def Number (_ : Machine) : Type := Option Int

namespace Number

/-- A number at hand. -/
def of (n : Int) : m.Number := some n

/-- The number that was reckoned, if the machine did not stop. -/
def get? (a : m.Number) : Option Int := a

@[simp] theorem get?_of (n : Int) : get? (of n : m.Number) = some n := rfl

/-- One step. -/
def step (exact : Int → Int → Int) (a b : m.Number) : m.Number :=
  Option.bind a fun x => Option.bind b fun y => m.word (exact x y)

instance (n : Nat) : OfNat m.Number n := ⟨of n⟩

instance : Add m.Number := ⟨step (· + ·)⟩

instance : Sub m.Number := ⟨step (· - ·)⟩

instance : Mul m.Number := ⟨step (· * ·)⟩

instance : Div m.Number := ⟨step Int.tdiv⟩

instance : Mod m.Number := ⟨step Int.tmod⟩

/-- The quotient, rounded down. -/
def floorDiv (a b : m.Number) : m.Number := step (· / ·) a b

/-- What the quotient that is rounded down leaves. -/
def floorMod (a b : m.Number) : m.Number := step (· % ·) a b

/-! ## Steps whose exact result fits -/

variable {a b : Int}

/-- A number that is written out is the same number of the machine. -/
theorem ofNat_eq (n : Nat) : (OfNat.ofNat n : m.Number) = of (OfNat.ofNat n) := rfl

/-- A step is exact if its result fits in 64 bits, whatever the machine does otherwise. -/
theorem step_exact {exact : Int → Int → Int} (h : Fits64 (exact a b)) :
    step exact (of a : m.Number) (of b) = of (exact a b) := if_pos h

/-- A sum is exact if it fits. -/
theorem of_add (lo : -9223372036854775808 ≤ a + b) (hi : a + b ≤ 9223372036854775807) :
    (of a + of b : m.Number) = of (a + b) := step_exact ⟨lo, hi⟩

theorem of_sub (lo : -9223372036854775808 ≤ a - b) (hi : a - b ≤ 9223372036854775807) :
    (of a - of b : m.Number) = of (a - b) := step_exact ⟨lo, hi⟩

theorem of_mul (lo : -9223372036854775808 ≤ a * b) (hi : a * b ≤ 9223372036854775807) :
    (of a * of b : m.Number) = of (a * b) := step_exact ⟨lo, hi⟩

/-- On numbers that are not negative, dropping the fraction is rounding down. -/
theorem of_div (ha : 0 ≤ a) (hi : a ≤ 9223372036854775807) (hb : 0 ≤ b) :
    (of a / of b : m.Number) = of (a / b) := by
  have rounded : a.tdiv b = a / b := Int.tdiv_eq_ediv_of_nonneg ha
  have nonneg := Int.ediv_nonneg ha hb
  have small := Int.ediv_le_self b ha
  rw [← rounded]
  exact step_exact ⟨by omega, by omega⟩

/-- A remainder of numbers that are not negative is exact. -/
theorem of_mod (ha : 0 ≤ a) (hi : a ≤ 9223372036854775807) (hb : 0 ≤ b) :
    (of a % of b : m.Number) = of (a % b) := by
  have rounded : a.tmod b = a % b := Int.tmod_eq_emod_of_nonneg ha
  have nonneg := Int.tmod_nonneg b ha
  have small : a.tmod b ≤ a := by
    have parts := Int.mul_ediv_add_emod a b
    have quotient := Int.mul_nonneg hb (Int.ediv_nonneg ha hb)
    omega
  rw [← rounded]
  exact step_exact ⟨by omega, by omega⟩

/-- A quotient rounded down is exact if it fits. -/
theorem of_floorDiv (lo : -9223372036854775808 ≤ a / b) (hi : a / b ≤ 9223372036854775807) :
    floorDiv (of a : m.Number) (of b) = of (a / b) := step_exact ⟨lo, hi⟩

/-- A remainder that goes with rounding down is exact if it fits. -/
theorem of_floorMod (lo : -9223372036854775808 ≤ a % b) (hi : a % b ≤ 9223372036854775807) :
    floorMod (of a : m.Number) (of b) = of (a % b) := step_exact ⟨lo, hi⟩

end Number
open Number
open Calendar (MarchDay)

/-! ## From a date to its number -/

/-- The month counted from March. -/
def marchMonth (month : m.Number) : m.Number := (month + 9) % 12

/-- The days of a March year before the first of a month counted from March. -/
def daysBeforeMarchMonth (marchMonth : m.Number) : m.Number := (153 * marchMonth + 2) / 5

/-- The days of an era before a year of it. -/
def daysBeforeYearOfEra (yearOfEra : m.Number) : m.Number :=
  365 * yearOfEra + yearOfEra / 4 - yearOfEra / 100

/-- The number of a day, counted from 1970-01-01. -/
def dayNumber (m : Machine) (date : CivilDate) : m.Number :=
  let marchYear : m.Number := if date.month ≤ 2 then of date.year - 1 else of date.year
  let era := floorDiv marchYear 400
  let yearOfEra := marchYear - era * 400
  let dayOfYear := daysBeforeMarchMonth (marchMonth (of date.month)) + of date.day - 1
  era * 146097 + (daysBeforeYearOfEra yearOfEra + dayOfYear) - 719468

section

variable {month year : Int}

/-- The month counted from March is exact for every month of a byte. -/
theorem marchMonth_exact (lo : 0 ≤ month) (hi : month ≤ 255) :
    marchMonth (of month : m.Number) = of (Calendar.marchMonth month) := by
  simp (disch := omega) only [marchMonth, ofNat_eq, of_add, of_mod]
  rfl

/-- The days before a month are exact. -/
theorem daysBeforeMarchMonth_exact (lo : 0 ≤ month) (hi : month ≤ 11) :
    daysBeforeMarchMonth (of month : m.Number) = of (Calendar.daysBeforeMarchMonth month) := by
  simp (disch := omega) only [daysBeforeMarchMonth, ofNat_eq, of_add, of_mul, of_div]
  rfl

/-- The days before a year of an era are exact. -/
theorem daysBeforeYearOfEra_exact (lo : 0 ≤ year) (hi : year ≤ 399) :
    daysBeforeYearOfEra (of year : m.Number) = of (Calendar.daysBeforeYearOfEra year) := by
  simp (disch := omega) only [daysBeforeYearOfEra, ofNat_eq, of_add, of_sub, of_mul, of_div]
  rfl

end

/-- **Every machine finds the number of a date**, in all years whose days it has room to count. -/
theorem dayNumber_exact {date : CivilDate} (lo : -9000000000000000 ≤ date.year)
    (hi : date.year ≤ 9000000000000000) (hmonth : date.month ≤ 255) (hday : date.day ≤ 255) :
    m.dayNumber date = of (Calendar.dayNumber date) := by
  obtain ⟨year, month, day⟩ := date
  simp only at lo hi hmonth hday
  have marchYear : (if month ≤ 2 then of year - 1 else of year : m.Number) =
      of (if month ≤ 2 then year - 1 else year) := by
    split
    · simp (disch := omega) only [ofNat_eq, of_sub]
    · rfl
  have nearby : year - 1 ≤ (if month ≤ 2 then year - 1 else year) ∧
      (if month ≤ 2 then year - 1 else year) ≤ year := by split <;> omega
  simp only [dayNumber, Calendar.dayNumber, marchYear]
  -- From here on only the size of the March year matters.
  generalize (if month ≤ 2 then year - 1 else year) = march at nearby ⊢
  have inYear : 0 ≤ Calendar.marchMonth month ∧ Calendar.marchMonth month ≤ 11 := by
    unfold Calendar.marchMonth
    omega
  have months : 0 ≤ Calendar.daysBeforeMarchMonth (Calendar.marchMonth month) ∧
      Calendar.daysBeforeMarchMonth (Calendar.marchMonth month) ≤ 337 := by
    unfold Calendar.daysBeforeMarchMonth
    omega
  have years : 0 ≤ Calendar.daysBeforeYearOfEra (march - march / 400 * 400) ∧
      Calendar.daysBeforeYearOfEra (march - march / 400 * 400) ≤ 146096 := by
    unfold Calendar.daysBeforeYearOfEra
    omega
  simp (disch := omega) only [marchMonth_exact, daysBeforeMarchMonth_exact,
    daysBeforeYearOfEra_exact, ofNat_eq, of_floorDiv, of_add, of_sub, of_mul]

/-! ## From a number to its date -/

/-- The year of an era that a day of it falls in. -/
def yearOfEra (dayOfEra : m.Number) : m.Number :=
  (dayOfEra - dayOfEra / 1460 + dayOfEra / 36524 - dayOfEra / 146096) / 365

/-- The month counted from March that a day of the March year falls in. -/
def monthOfYear (dayOfYear : m.Number) : m.Number := (5 * dayOfYear + 2) / 153

/-- The month; the last two of a March year are the first two of the next year. -/
def monthFromMarch (marchMonth : Int) : m.Number :=
  if marchMonth < 10 then of marchMonth + 3 else of marchMonth - 9

/-- The date of a day number, with its month and its day cut down to eight bits. -/
def civilOfDay (m : Machine) (number : m.Number) : Option CivilDate := do
  let marchDays := number + 719468
  let era := floorDiv marchDays 146097
  let dayOfEra := marchDays - era * 146097
  let year := yearOfEra dayOfEra
  let dayOfYear := dayOfEra - daysBeforeYearOfEra year
  let marchMonth ← (monthOfYear dayOfYear).get?
  let day ← (dayOfYear - daysBeforeMarchMonth (of marchMonth) + 1).get?
  let month ← (monthFromMarch marchMonth : m.Number).get?
  let year ← (year + era * 400 + of (if month ≤ 2 then 1 else 0)).get?
  return ⟨year, ← m.byte month, ← m.byte day⟩

/-- The year of a day of an era is exact. -/
theorem yearOfEra_exact {day : Int} (lo : 0 ≤ day) (hi : day < 146097) :
    yearOfEra (of day : m.Number) = of (Calendar.yearOfEra day) := by
  simp (disch := omega) only [yearOfEra, ofNat_eq, of_add, of_sub, of_div]
  rfl

/-- The month of a day of a March year is exact. -/
theorem monthOfYear_exact {day : Int} (lo : 0 ≤ day) (hi : day ≤ 365) :
    monthOfYear (of day : m.Number) = of ((5 * day + 2) / 153) := by
  simp (disch := omega) only [monthOfYear, ofNat_eq, of_add, of_mul, of_div]

/-- The month of the calendar is exact. -/
theorem monthFromMarch_exact {month : Int} (lo : 0 ≤ month) (hi : month ≤ 11) :
    (monthFromMarch month : m.Number) = of (if month < 10 then month + 3 else month - 9) := by
  unfold monthFromMarch
  split <;> simp (disch := omega) only [ofNat_eq, of_add, of_sub]

/-- **Every machine finds the date of a day number**, in half of the numbers of 64 bits. -/
theorem civilOfDay_exact {number : Int} (lo : -4611686018427387904 ≤ number)
    (hi : number ≤ 4611686018427387904) :
    m.civilOfDay (of number) = some (Calendar.civilOfDay number) := by
  -- The number is taken apart first, so that the bound of each step is one of a part.
  obtain ⟨d, rfl⟩ := MarchDay.exists_number number
  have hyear := d.year_mem
  have hmonth := d.month_mem
  have hday := d.day_mem.1
  have lastDay := d.day_le
  have inEra := d.dayOfEra_mem
  have inYear := d.dayOfYear_mem
  have era := d.era_number
  have dayOfEra : d.number + 719468 - d.era * 146097 =
      Calendar.daysBeforeYearOfEra d.year + d.dayOfYear := by unfold MarchDay.number; omega
  have year := Calendar.yearOfEra_daysBefore hyear inYear.1 inYear.2
  have dayOfYear : Calendar.daysBeforeYearOfEra d.year + d.dayOfYear -
      Calendar.daysBeforeYearOfEra d.year = d.dayOfYear := by omega
  have day : d.dayOfYear - Calendar.daysBeforeMarchMonth d.month = d.day := by
    unfold MarchDay.dayOfYear
    omega
  rw [d.civilOfDay_number, civilOfDay]
  simp (disch := omega) only [ofNat_eq, of_add, of_sub, of_mul, of_floorDiv, era, dayOfEra,
    yearOfEra_exact, year, daysBeforeYearOfEra_exact, dayOfYear, monthOfYear_exact, d.monthOfYear,
    daysBeforeMarchMonth_exact, day, monthFromMarch_exact, byte_exact, get?_of,
    Option.bind_eq_bind, Option.bind_some]
  have turn : (if (if d.month < 10 then d.month + 3 else d.month - 9) ≤ 2 then (1 : Int) else 0) =
      if d.month < 10 then 0 else 1 := by split <;> split <;> omega
  rw [turn]
  rfl

end Machine
end DateFacet
