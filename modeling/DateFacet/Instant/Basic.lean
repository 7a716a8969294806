/-
# Instants

An instant is a second of UTC on the proleptic Gregorian calendar, kept as its six fields.
The type holds the proof that the fields name a real calendar time, so every instant is one;
what has to be checked is checked once, in `ofFields`, from the year down to the second.

The main statement is `ofFields_eq_ok_iff`: the check accepts exactly the real times, and
changes no field.
-/

import DateFacet.Calendar
import DateFacet.Instant.Fault

namespace DateFacet

open Calendar (daysInMonth)

/-- A second of UTC with an astronomical year of at most `Instant.maxYear` either way. -/
structure Instant where
  year : Int
  month : Nat
  day : Nat
  hour : Nat
  minute : Nat
  second : Nat
  year_le : year.natAbs ≤ Instant.maxYear
  month_mem : 1 ≤ month ∧ month ≤ 12
  day_mem : 1 ≤ day ∧ day ≤ daysInMonth year month
  hour_le : hour ≤ 23
  minute_le : minute ≤ 59
  second_le : second ≤ 59
  deriving DecidableEq

namespace Instant

/-- Six fields name a real calendar time within the supported years. -/
def IsReal (year : Int) (month day hour minute second : Nat) : Prop :=
  year.natAbs ≤ maxYear ∧ (1 ≤ month ∧ month ≤ 12) ∧
    (1 ≤ day ∧ day ≤ daysInMonth year month) ∧ hour ≤ 23 ∧ minute ≤ 59 ∧ second ≤ 59

instance (year : Int) (month day hour minute second : Nat) :
    Decidable (IsReal year month day hour minute second) := by
  unfold IsReal; infer_instance

/-- The instant of six fields; the first field that is out of range is the fault. -/
def ofFields (year : Int) (month day hour minute second : Nat) : Except Fault Instant :=
  if year_le : year.natAbs ≤ maxYear then
    if month_mem : 1 ≤ month ∧ month ≤ 12 then
      if day_mem : 1 ≤ day ∧ day ≤ daysInMonth year month then
        if hour_le : hour ≤ 23 then
          if minute_le : minute ≤ 59 then
            if second_le : second ≤ 59 then
              .ok { year, month, day, hour, minute, second, year_le, month_mem, day_mem,
                    hour_le, minute_le, second_le }
            else .error (.second second)
          else .error (.minute minute)
        else .error (.hour hour)
      else .error (.day day (daysInMonth year month) year month)
    else .error (.month month)
  else .error (.year year)

/-- Midnight of a calendar day. -/
def ofDate (year : Int) (month day : Nat) : Except Fault Instant :=
  ofFields year month day 0 0 0

/-- The fields of an instant pass their check. -/
theorem isReal (t : Instant) : IsReal t.year t.month t.day t.hour t.minute t.second :=
  ⟨t.year_le, t.month_mem, t.day_mem, t.hour_le, t.minute_le, t.second_le⟩

/-- **The field check accepts exactly the real times, and keeps every field.** -/
theorem ofFields_eq_ok_iff {year : Int} {month day hour minute second : Nat} {t : Instant} :
    ofFields year month day hour minute second = .ok t ↔
      IsReal year month day hour minute second ∧ t.year = year ∧ t.month = month ∧
        t.day = day ∧ t.hour = hour ∧ t.minute = minute ∧ t.second = second := by
  unfold ofFields IsReal
  constructor
  · intro h
    iterate 6 (split at h <;> try cases h)
    simp_all
  · rintro ⟨⟨hy, hm, hd, hh, hmi, hs⟩, rfl, rfl, rfl, rfl, rfl, rfl⟩
    simp [hy, hm, hd, hh, hmi, hs]

/-- The fields of an instant give the instant back. -/
@[simp] theorem ofFields_self (t : Instant) :
    ofFields t.year t.month t.day t.hour t.minute t.second = .ok t :=
  ofFields_eq_ok_iff.2 ⟨t.isReal, rfl, rfl, rfl, rfl, rfl, rfl⟩

/-- The year comes before year 0. -/
def isNegative (t : Instant) : Bool := t.year < 0

/-- The day of the instant. -/
def date (t : Instant) : CivilDate := ⟨t.year, t.month, t.day⟩

/-- Midnight of a day that exists. -/
def midnight (year : Int) (month day : Nat) (year_le : year.natAbs ≤ maxYear)
    (month_mem : 1 ≤ month ∧ month ≤ 12) (day_mem : 1 ≤ day ∧ day ≤ daysInMonth year month) :
    Instant :=
  { year, month, day, hour := 0, minute := 0, second := 0, year_le, month_mem, day_mem
    hour_le := by decide, minute_le := by decide, second_le := by decide }

/-- Midnight of the same day. -/
def startOfDay (t : Instant) : Instant :=
  midnight t.year t.month t.day t.year_le t.month_mem t.day_mem

/-- The last second of the same day. -/
def endOfDay (t : Instant) : Instant :=
  { t with hour := 23, minute := 59, second := 59
           hour_le := by decide, minute_le := by decide, second_le := by decide }

/-- The second after midnight on January 1st of the same year, from which a year window
counts. -/
def startOfYear (t : Instant) : Instant :=
  { year := t.year, month := 1, day := 1, hour := 0, minute := 0, second := 1
    year_le := t.year_le, month_mem := by decide
    day_mem := by simp
    hour_le := by decide, minute_le := by decide, second_le := by decide }

/-- The last second of the same year. -/
def endOfYear (t : Instant) : Instant :=
  { year := t.year, month := 12, day := 31, hour := 23, minute := 59, second := 59
    year_le := t.year_le, month_mem := by decide
    day_mem := by simp
    hour_le := by decide, minute_le := by decide, second_le := by decide }

end Instant
end DateFacet
