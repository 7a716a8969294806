/-
# Instants on a machine

An `Instant` cannot be built from fields that name no calendar time.  A machine has only the six
numbers, and whether they name one is a matter of what was done to get them.  `Fields` are such
numbers, of which nothing is known, and this module has the operations on instants again as
operations on them, in the steps of a `Machine`.

| operation | on instants | on fields |
| --- | --- | --- |
| the check of fields | `Instant.ofFields` | `Machine.check` |
| the count of days | `Instant.daysSinceEpoch` | `Machine.daysSinceEpoch` |
| the count of seconds | `Instant.secondsSinceEpoch?` | `Machine.secondsSinceEpoch` |
| back from a count of seconds | `Instant.ofSeconds` | `Machine.ofSeconds` |
| the shift by minutes | `Instant.shift` | `Machine.shift` |

Few of the steps are guarded by the operations themselves.  All others stay within 64 bits and eight
bits all the same (`calendar_exact`), so on every machine the two columns agree.
-/

import DateFacet.Proofs.MachineCalendar
import DateFacet.Proofs.Shifting

namespace DateFacet

open Instant (Fault Fits64 maxYear)
open Text (padded)

/-- The six numbers of an instant, before anything is known about them. -/
structure Fields where
  year : Int
  month : Nat
  day : Nat
  hour : Nat
  minute : Nat
  second : Nat
  deriving DecidableEq

namespace Fields

/-- The fields name a real calendar time within the supported years. -/
def IsReal (f : Fields) : Prop :=
  Instant.IsReal f.year f.month f.day f.hour f.minute f.second

instance (f : Fields) : Decidable f.IsReal := by
  unfold IsReal; infer_instance

/-- The day of the fields. -/
def date (f : Fields) : CivilDate := ⟨f.year, f.month, f.day⟩

/-- The fields as they are written. -/
def text (f : Fields) : String :=
  String.ofList ((if decide (f.year < 0) then ['-'] else []) ++ padded 4 f.year.natAbs ++
    '-' :: padded 2 f.month ++ '-' :: padded 2 f.day ++
    'T' :: (padded 2 f.hour ++ ':' :: padded 2 f.minute ++ ':' :: padded 2 f.second) ++ ['Z'])

end Fields

/-- The six numbers of an instant. -/
def Instant.fields (t : Instant) : Fields := ⟨t.year, t.month, t.day, t.hour, t.minute, t.second⟩

/-- The fields of an instant pass the check of fields. -/
theorem Instant.isReal_fields (t : Instant) : t.fields.IsReal := t.isReal

/-- Real fields are those of an instant. -/
theorem Fields.IsReal.exists_instant {f : Fields} (h : f.IsReal) : ∃ t : Instant, t.fields = f :=
  ⟨.ofReal h, rfl⟩

namespace Machine

open Number

variable {m : Machine}

/-! ## The operations, step by step -/

/-- The fields, if they name a real calendar time; else the first of them that is out of range is
the fault. -/
def check (m : Machine) (f : Fields) : Option (Except Fault Fields) := do
  let size ← m.word f.year.natAbs
  return if size ≤ maxYear then
      if 1 ≤ f.month ∧ f.month ≤ 12 then
        if 1 ≤ f.day ∧ f.day ≤ Calendar.daysInMonth f.year f.month then
          if f.hour ≤ 23 then
            if f.minute ≤ 59 then
              if f.second ≤ 59 then .ok f
              else .error (.second f.second)
            else .error (.minute f.minute)
          else .error (.hour f.hour)
        else .error (.day f.day (Calendar.daysInMonth f.year f.month) f.year f.month)
      else .error (.month f.month)
    else .error (.year f.year)

/-- The days from 1970-01-01 to the day of the fields. -/
def daysSinceEpoch (m : Machine) (f : Fields) : m.Number := m.dayNumber f.date

/-- A number of 64 bits, if the exact one is one: a step that is guarded. -/
def guarded (n : Int) : Option Int := if Fits64 n then some n else none

/-- The seconds from 1970, where the guarded steps fit. -/
def secondsSinceEpoch (m : Machine) (f : Fields) : Option (Option Int) := do
  let days ← (m.daysSinceEpoch f).get?
  let ofDay ← (of f.hour * 3600 + of f.minute * 60 + of f.second : m.Number).get?
  return (guarded (days * 86400)).bind fun midnight => guarded (midnight + ofDay)

/-- The fields at a count of seconds from 1970. -/
def ofSeconds (m : Machine) (seconds : Int) : Option (Except Fault Fields) := do
  let days := floorDiv (of seconds : m.Number) 86400
  let rest := floorMod (of seconds : m.Number) 86400
  let date ← m.civilOfDay days
  let hour ← m.byte (← (rest / 3600).get?)
  let minute ← m.byte (← (rest % 3600 / 60).get?)
  let second ← m.byte (← (rest % 60).get?)
  m.check ⟨date.year, date.month, date.day, hour, minute, second⟩

/-- The fields `minutes` later, or earlier when the number is negative. -/
def shift (m : Machine) (f : Fields) (minutes : Int) : Option (Except Fault Fields) := do
  let sinceMidnight ← (of f.hour * 60 + of f.minute : m.Number).get?
  match guarded (sinceMidnight + minutes) with
  | none => return .error (.shiftLength f.text minutes)
  | some total =>
    let days ← (m.daysSinceEpoch f).get?
    let carried ← (floorDiv (of total : m.Number) 1440).get?
    match guarded (days + carried) with
    | none => return .error (.shiftLength f.text minutes)
    | some days =>
      let rest := floorMod (of total : m.Number) 1440
      let date ← m.civilOfDay (of days)
      let hour ← m.byte (← (rest / 60).get?)
      let minute ← m.byte (← (rest % 60).get?)
      m.check ⟨date.year, date.month, date.day, hour, minute, f.second⟩

/-! ## What they give -/

/-- **The check of fields is the one of instants**, if the size of the year fits in 64 bits. -/
theorem check_exact {f : Fields} (h : f.year.natAbs ≤ 9223372036854775807) :
    m.check f = some (Instant.fields <$>
      Instant.ofFields f.year f.month f.day f.hour f.minute f.second) := by
  have size : m.word f.year.natAbs = some (f.year.natAbs : Int) := if_pos ⟨by omega, by omega⟩
  rw [check, size, Instant.ofFields]
  simp only [Option.bind_eq_bind, Option.bind_some, Int.ofNat_le]
  split_ifs <;> rfl

/-- The days of every instant are exact, for its year is within the limit. -/
theorem daysSinceEpoch_exact (t : Instant) :
    m.daysSinceEpoch t.fields = of t.daysSinceEpoch := by
  have year := t.year_le
  have month := t.month_mem
  have day := t.day_mem
  have last := Calendar.daysInMonth_le t.year t.month
  unfold maxYear at year
  refine dayNumber_exact ?_ ?_ ?_ ?_ <;> simp only [Fields.date, Instant.fields] <;> omega

/-- Two guarded steps, of which the second goes on from the first. -/
theorem guarded_add (a b : Int) : ((guarded a).bind fun n => guarded (n + b)) =
    if Fits64 a ∧ Fits64 (a + b) then some (a + b) else none := by
  unfold guarded
  by_cases first : Fits64 a <;> simp [first]

/-- Every machine counts the seconds of an instant, or finds that they do not fit, alike. -/
theorem secondsSinceEpoch_exact (t : Instant) :
    m.secondsSinceEpoch t.fields = some t.secondsSinceEpoch? := by
  have hour := t.hour_le
  have minute := t.minute_le
  have second := t.second_le
  have ofDay : (t.hour * 3600 + t.minute * 60 + t.second : Int) = t.secondOfDay := by
    unfold Instant.secondOfDay
    omega
  rw [secondsSinceEpoch, daysSinceEpoch_exact, Instant.fields]
  simp (disch := omega) only [ofNat_eq, of_add, of_mul, get?_of, Option.bind_eq_bind,
    Option.bind_some, ofDay, guarded_add]
  rfl

/-- A day number in reach of `civilOfDay_exact` has a year of 64 bits. -/
theorem year_civilOfDay_le (number : Int) (lo : -4611686018427387904 ≤ number)
    (hi : number ≤ 4611686018427387904) :
    (Calendar.civilOfDay number).year.natAbs ≤ 9223372036854775807 := by
  obtain ⟨first, last⟩ := Calendar.year_civilOfDay_mem number
  omega

/-- **A count of 64 bits leads to its instant**, without a step that does not fit. -/
theorem ofSeconds_exact {seconds : Int} (h : Fits64 seconds) :
    m.ofSeconds seconds = some (Instant.fields <$> Instant.ofSeconds seconds) := by
  obtain ⟨lo, hi⟩ := h
  obtain ⟨second, rest⟩ : ∃ second : Nat, seconds % 86400 = second :=
    ⟨(seconds % 86400).toNat, by omega⟩
  have inDay : second < 86400 := by omega
  have hour : ((second : Int) / 3600).toNat = second / 3600 := by omega
  have minute : ((second : Int) % 3600 / 60).toNat = second % 3600 / 60 := by omega
  have lastPart : ((second : Int) % 60).toNat = second % 60 := by omega
  have year := year_civilOfDay_le (seconds / 86400) (by omega) (by omega)
  rw [ofSeconds, Instant.ofSeconds, Instant.ofDayAndSecond, rest, Int.toNat_natCast]
  simp (disch := omega) only [ofNat_eq, of_floorDiv, of_floorMod, rest, of_div, of_mod,
    civilOfDay_exact, byte_exact, get?_of, Option.bind_eq_bind, Option.bind_some, hour, minute,
    lastPart]
  exact check_exact year

/-- A guarded step goes on where its result fits. -/
theorem guarded_of_fits {n : Int} (h : Fits64 n) : guarded n = some n := if_pos h

theorem guarded_of_not_fits {n : Int} (h : ¬ Fits64 n) : guarded n = none := if_neg h

/-- **A shift leads to the instant so many minutes away**, without a step that does not fit. -/
theorem shift_exact (t : Instant) (minutes : Int) :
    m.shift t.fields minutes = some (Instant.fields <$> t.shift minutes) := by
  have hour := t.hour_le
  have minute := t.minute_le
  have nearby := t.position_mem
  have inDay := t.secondOfDay_lt
  have position : t.position = 86400 * t.daysSinceEpoch + t.secondOfDay := rfl
  have sinceMidnight : (t.hour * 60 + t.minute : Int) = t.minuteOfDay := by
    unfold Instant.minuteOfDay
    omega
  rw [shift, Instant.shift, daysSinceEpoch_exact, Instant.fields]
  simp (disch := omega) only [ofNat_eq, of_add, of_mul, get?_of, Option.bind_eq_bind,
    Option.bind_some, sinceMidnight]
  generalize t.minuteOfDay + minutes = total
  by_cases fits : Fits64 total
  · obtain ⟨lo, hi⟩ := id fits
    simp (disch := omega) only [guarded_of_fits fits, of_floorDiv, of_floorMod, get?_of,
      Option.bind_some]
    -- The day is nearer than its guard allows, for the minutes are many times as many.
    have near : -4611686018427387904 ≤ t.daysSinceEpoch + total / 1440 ∧
      t.daysSinceEpoch + total / 1440 ≤ 4611686018427387904 := by omega
    have fitsDay : Fits64 (t.daysSinceEpoch + total / 1440) := ⟨by omega, by omega⟩
    obtain ⟨rest, hrest⟩ : ∃ rest : Nat, total % 1440 = rest := ⟨(total % 1440).toNat, by omega⟩
    have small : rest < 1440 := by omega
    have hourPart : ((rest : Int) / 60).toNat = rest / 60 := by omega
    have minutePart : ((rest : Int) % 60).toNat = rest % 60 := by omega
    have year := year_civilOfDay_le _ near.1 near.2
    rw [guarded_of_fits fitsDay, if_pos ⟨fits, fitsDay⟩, hrest, Int.toNat_natCast]
    simp (disch := omega) only [of_div, of_mod, civilOfDay_exact, byte_exact, get?_of,
      Option.bind_some, hourPart, minutePart]
    exact check_exact year
  · rw [guarded_of_not_fits fits, if_neg fun both => fits both.1]
    rfl

/-- **The calendar stays within its words.**  On every machine, whatever it does with numbers that do
not fit, the steps of the counts of days and of seconds give what exact integers give, for every
instant; so do those of a shift by any number of minutes, and those from any count of seconds of 64
bits to its instant.  The strict machine is one of them, and it gives nothing at all after a number
that does not fit: so every number on the way has 64 bits, and every month, day, hour, minute and
second has the eight bits that it is cut down to. -/
theorem calendar_exact (m : Machine) :
    (∀ t : Instant, (m.daysSinceEpoch t.fields).get? = some t.daysSinceEpoch ∧
      m.secondsSinceEpoch t.fields = some t.secondsSinceEpoch? ∧
      ∀ minutes, m.shift t.fields minutes = some (Instant.fields <$> t.shift minutes)) ∧
    ∀ seconds, Fits64 seconds →
      m.ofSeconds seconds = some (Instant.fields <$> Instant.ofSeconds seconds) :=
  ⟨fun t => ⟨congrArg get? (daysSinceEpoch_exact t), secondsSinceEpoch_exact t, shift_exact t⟩,
    fun _ => ofSeconds_exact⟩

/-- The hypothesis of `calendar_exact` holds of the least count, for which the strict machine finds
the instant.  The longest shift back from the first instant ends without one on this machine, since
the year is too far, and so does the longest shift forth from the last, at the guard. -/
theorem calendar_exact_ends :
    strict.ofSeconds (-9223372036854775808) = some (.ok ⟨-292277022657, 1, 27, 8, 29, 52⟩) ∧
    strict.shift Instant.earliest.fields (-9223372036854775808) =
      some (.error (.year (-18536621477615))) ∧
    strict.shift Instant.latest.fields 9223372036854775807 =
      some (.error (.shiftLength Instant.latest.text 9223372036854775807)) := by
  obtain ⟨instants, counts⟩ := calendar_exact strict
  refine ⟨(counts _ (by decide)).trans ?_, ((instants Instant.earliest).2.2 _).trans ?_,
    ((instants Instant.latest).2.2 _).trans ?_⟩ <;> decide +kernel

end Machine
end DateFacet
