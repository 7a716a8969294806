/-
# Times of a clock and instants

A clock keeps days and times of its own, and an instant goes over to it and back through what the
clock can be asked for: the day of a year, a month and a day of the month, the time of a day, the
parts of a time.  `Timekeeper` is a clock that is known only by these questions, and
`Timekeeper.IsGregorian` is what its answers are promised to be.  The promise on its count of seconds
says where it starts and that the next second counts one more; it mentions no formula for days.

`DateFacet.ClockTime` is such a clock (`ClockTime.keeper`, `ClockTime.keeper_isGregorian`), and the
conversions of this module are those of `Instant.toClockTime` and `Instant.ofClockTime` there.

The count of a Gregorian clock is the place on the line of seconds (`timestamp_eq_position`), found
second by second from 1970 on and back from it.  So going over to the clock and back loses nothing but
the parts of a second (`conversion_exact`).
-/

import DateFacet.ClockTime
import DateFacet.Proofs.CountedSeconds
import DateFacet.Proofs.MachineInstants

namespace DateFacet

open ClockTime (HasYear)
open Instant (Fault)

/-! ## The second after -/

/-- The second after: the next of the minute, or the first of the next minute, hour or day. -/
def Fields.secondAfter (f : Fields) : Fields :=
  if f.second < 59 then { f with second := f.second + 1 }
  else if f.minute < 59 then { f with minute := f.minute + 1, second := 0 }
  else if f.hour < 23 then { f with hour := f.hour + 1, minute := 0, second := 0 }
  else
    let date := Calendar.dayAfter f.date
    ⟨date.year, date.month, date.day, 0, 0, 0⟩

namespace Instant

variable {a b : Instant}

/-- The parts of the day say how many seconds of it have passed. -/
theorem secondOfDay_eq (t : Instant) : t.secondOfDay = t.hour * 3600 + t.minute * 60 + t.second := rfl

/-- Fields are those of an instant if the day and the time of day are. -/
theorem fields_eq_of_date {f : Fields} (date : b.date = f.date) (hour : b.hour = f.hour)
    (minute : b.minute = f.minute) (second : b.second = f.second) : b.fields = f := by
  simp only [Instant.date, Fields.date, CivilDate.mk.injEq] at date
  simp only [fields, date, hour, minute, second]

/-- **The next place is that of the second after.** -/
theorem fields_secondAfter (h : b.position = a.position + 1) :
    b.fields = a.fields.secondAfter := by
  have aHour := a.hour_le
  have aMinute := a.minute_le
  have aSecond := a.second_le
  have bHour := b.hour_le
  have bMinute := b.minute_le
  have bSecond := b.second_le
  unfold position at h
  rw [secondOfDay_eq, secondOfDay_eq] at h
  have sameDay (day : b.daysSinceEpoch = a.daysSinceEpoch) : b.date = a.fields.date :=
    daysSinceEpoch_inj.1 day
  -- The first of second, minute and hour that has room goes up, and those before it start again.
  by_cases second : a.second < 59
  · have parts : b.hour = a.hour ∧ b.minute = a.minute ∧ b.second = a.second + 1 := by omega
    rw [Fields.secondAfter, if_pos (by exact second)]
    exact fields_eq_of_date (sameDay (by omega)) parts.1 parts.2.1 parts.2.2
  by_cases minute : a.minute < 59
  · have parts : b.hour = a.hour ∧ b.minute = a.minute + 1 ∧ b.second = 0 := by omega
    rw [Fields.secondAfter, if_neg (by exact second), if_pos (by exact minute)]
    exact fields_eq_of_date (sameDay (by omega)) parts.1 parts.2.1 parts.2.2
  by_cases hour : a.hour < 23
  · have parts : b.hour = a.hour + 1 ∧ b.minute = 0 ∧ b.second = 0 := by omega
    rw [Fields.secondAfter, if_neg (by exact second), if_neg (by exact minute),
      if_pos (by exact hour)]
    exact fields_eq_of_date (sameDay (by omega)) parts.1 parts.2.1 parts.2.2
  · have parts : b.hour = 0 ∧ b.minute = 0 ∧ b.second = 0 := by omega
    have day : b.daysSinceEpoch = a.daysSinceEpoch + 1 := by omega
    have date : b.date = Calendar.dayAfter a.date := by
      rw [← Calendar.civilOfDay_dayNumber b.exists_date,
        ← Calendar.civilOfDay_dayNumber (Calendar.exists_dayAfter a.exists_date),
        Calendar.dayNumber_dayAfter a.exists_date]
      exact congrArg Calendar.civilOfDay day
    rw [Fields.secondAfter, if_neg (by exact second), if_neg (by exact minute),
      if_neg (by exact hour)]
    exact fields_eq_of_date date parts.1 parts.2.1 parts.2.2

/-- The first second of 1970. -/
def epoch : Instant := ofReal (by decide : IsReal 1970 1 1 0 0 0)

end Instant

/-! ## The years of a clock -/

namespace ClockTime

/-- A year of a clock is one of an instant. -/
theorem year_le {year : Int} (h : HasYear year) : year.natAbs ≤ Instant.maxYear := by
  unfold HasYear at h
  unfold Instant.maxYear
  omega

/-- The first second that a clock counts. -/
def first : Instant := .ofReal (by decide : Instant.IsReal (-262143) 1 1 0 0 0)

/-- The last second that a clock counts. -/
def last : Instant := .ofReal (by decide : Instant.IsReal 262142 12 31 23 59 59)

/-- **The years of a clock are a stretch of the line of seconds.** -/
theorem hasYear_iff {t : Instant} :
    HasYear t.year ↔ first.position ≤ t.position ∧ t.position ≤ last.position := by
  have month := t.month_mem
  have day := t.day_mem
  have lastDay := Calendar.daysInMonth_le t.year t.month
  have hour := t.hour_le
  have minute := t.minute_le
  have second := t.second_le
  rw [Instant.position_le_iff, Instant.position_le_iff, Instant.le_iff_not_lt,
    Instant.le_iff_not_lt, Instant.lt_iff, Instant.lt_iff, HasYear]
  simp only [first, last, Instant.ofReal]
  omega

/-- The places of the years of a clock, in numbers. -/
theorem position_mem {t : Instant} (h : HasYear t.year) :
    -8334601228800 ≤ t.position ∧ t.position ≤ 8210266876799 := by
  have start : first.position = -8334601228800 := by decide
  have stop : last.position = 8210266876799 := by decide
  rw [← start, ← stop]
  exact hasYear_iff.1 h

/-- In the years of a clock every second is counted. -/
theorem secondsSinceEpoch?_of_hasYear {t : Instant} (h : HasYear t.year) :
    t.secondsSinceEpoch? = some t.position := by
  obtain ⟨lo, hi⟩ := position_mem h
  rw [Instant.secondsSinceEpoch?_eq, if_pos]
  unfold Instant.Fits64 Instant.firstCounted
  omega

end ClockTime

/-! ## Clocks -/

/-- A clock, known only by what it can be asked. -/
structure Timekeeper where
  /-- The days of the clock. -/
  Day : Type
  /-- The times of the clock. -/
  Time : Type
  /-- The day with a year, a month and a day of the month, if the clock has it. -/
  day? : Int → Nat → Nat → Option Day
  /-- The time of a day at an hour, a minute and a second, if there is one. -/
  time? : Day → Nat → Nat → Nat → Option Time
  /-- The time at a count of seconds and of nanoseconds, if the clock has it. -/
  ofTimestamp? : Int → Nat → Option Time
  /-- The year, the month and the day of the month of a day. -/
  date : Day → CivilDate
  /-- The parts of a time, down to the second. -/
  fields : Time → Fields
  /-- The count of seconds of a time. -/
  timestamp : Time → Int

namespace Timekeeper

/-- The days and times of a clock are real ones, in the years that it counts. -/
structure IsValid (k : Timekeeper) : Prop where
  day_real : ∀ d, HasYear (k.date d).year ∧ Calendar.Exists (k.date d)
  time_real : ∀ x, HasYear (k.fields x).year ∧ Calendar.Exists (k.fields x).date ∧
    (k.fields x).hour ≤ 23 ∧ (k.fields x).minute ≤ 59

/-- A clock keeps universal time on the proleptic Gregorian calendar. -/
structure IsGregorian (k : Timekeeper) : Prop extends k.IsValid where
  /-- Leap seconds are told as the second before them. -/
  second_le : ∀ x, (k.fields x).second ≤ 59
  /-- The clock has every date of the calendar in its years, … -/
  exists_day : ∀ date : CivilDate, HasYear date.year → Calendar.Exists date →
    ∃ d, k.day? date.year date.month date.day = some d
  /-- … and a day is the one that was asked for. -/
  date_of_day? : ∀ year month day d, k.day? year month day = some d → k.date d = ⟨year, month, day⟩
  /-- A day has every time of a clock face, … -/
  exists_time : ∀ d hour minute second, hour ≤ 23 → minute ≤ 59 → second ≤ 59 →
    ∃ x, k.time? d hour minute second = some x
  /-- … and a time is the one that was asked for. -/
  fields_of_time? : ∀ d hour minute second x, k.time? d hour minute second = some x →
    k.fields x = ⟨(k.date d).year, (k.date d).month, (k.date d).day, hour, minute, second⟩
  /-- The count starts with the first second of 1970. -/
  timestamp_epoch : ∀ x, k.fields x = ⟨1970, 1, 1, 0, 0, 0⟩ → k.timestamp x = 0
  /-- The second after counts one more. -/
  timestamp_secondAfter : ∀ x y, k.fields y = (k.fields x).secondAfter →
    k.timestamp y = k.timestamp x + 1
  /-- A time at a count has this count. -/
  timestamp_of_ofTimestamp? : ∀ seconds nanos x, k.ofTimestamp? seconds nanos = some x →
    k.timestamp x = seconds

/-- The clock's time of an instant; a year that needs more than 32 bits is a fault of its own. -/
def ofInstant (k : Timekeeper) (t : Instant) : Except Fault k.Time :=
  if -2147483648 ≤ t.year ∧ t.year ≤ 2147483647 then
    match (k.day? t.year t.month t.day).bind fun d => k.time? d t.hour t.minute t.second with
    | some x => .ok x
    | none => .error (.clockRange t.text)
  else .error (.clockYear t.year)

/-- The parts of a time, each but the year cut down to eight bits, with a second of 59 at most. -/
def toFields (k : Timekeeper) (m : Machine) (x : k.Time) : Option Fields := do
  let f := k.fields x
  return ⟨f.year, ← m.byte f.month, ← m.byte f.day, ← m.byte f.hour, ← m.byte f.minute,
    ← m.byte (min f.second 59 : Nat)⟩

/-- Midnight of a day, with its month and its day cut down to eight bits. -/
def midnight (k : Timekeeper) (m : Machine) (d : k.Day) : Option Fields := do
  return ⟨(k.date d).year, ← m.byte (k.date d).month, ← m.byte (k.date d).day, 0, 0, 0⟩

namespace IsValid

variable {k : Timekeeper} {m : Machine} (h : k.IsValid)

include h

/-- Eight bits are enough for the parts of a time, so all of them come back but a second of 60. -/
theorem toFields_eq (x : k.Time) :
    k.toFields m x = some { k.fields x with second := min (k.fields x).second 59 } := by
  obtain ⟨-, ⟨-, month, -, day⟩, hour, minute⟩ := h.time_real x
  have lastDay := Calendar.daysInMonth_le (k.fields x).year (k.fields x).month
  simp only [Fields.date] at month day
  rw [toFields]
  simp (disch := omega) only [Machine.byte_exact, Int.toNat_natCast, Option.bind_eq_bind,
    Option.bind_some]
  rfl

/-- They are enough for the month and the day of a date. -/
theorem midnight_eq (d : k.Day) :
    k.midnight m d = some ⟨(k.date d).year, (k.date d).month, (k.date d).day, 0, 0, 0⟩ := by
  obtain ⟨-, -, month, -, day⟩ := h.day_real d
  have lastDay := Calendar.daysInMonth_le (k.date d).year (k.date d).month
  rw [midnight]
  simp (disch := omega) only [Machine.byte_exact, Int.toNat_natCast, Option.bind_eq_bind,
    Option.bind_some]
  rfl

end IsValid

/-! ## The count of a clock -/

namespace IsGregorian

variable {k : Timekeeper} (h : k.IsGregorian)

include h

/-- The parts of a time are those of an instant. -/
theorem exists_instant (x : k.Time) : ∃ t : Instant, k.fields x = t.fields ∧ HasYear t.year := by
  obtain ⟨hasYear, ⟨first, last, day⟩, hour, minute⟩ := h.time_real x
  have real : (k.fields x).IsReal :=
    ⟨ClockTime.year_le hasYear, ⟨first, last⟩, day, hour, minute, h.second_le x⟩
  obtain ⟨t, eq⟩ := real.exists_instant
  refine ⟨t, eq.symm, ?_⟩
  rw [← eq] at hasYear
  exact hasYear

/-- A time of a clock comes back with all of its parts. -/
theorem toFields_eq_fields (m : Machine) (x : k.Time) : k.toFields m x = some (k.fields x) := by
  rw [h.toFields_eq, Nat.min_eq_left (h.second_le x)]

/-- **An instant goes over to a clock in the years of the clock**, and nothing of it is lost. -/
theorem ofInstant_eq_ok {t : Instant} (hasYear : HasYear t.year) :
    ∃ x, k.ofInstant t = .ok x ∧ k.fields x = t.fields := by
  obtain ⟨d, day⟩ := h.exists_day t.date hasYear t.exists_date
  obtain ⟨x, time⟩ := h.exists_time d _ _ _ t.hour_le t.minute_le t.second_le
  have date := h.date_of_day? _ _ _ _ day
  have fields := h.fields_of_time? _ _ _ _ _ time
  have fits32 : -2147483648 ≤ t.year ∧ t.year ≤ 2147483647 := by
    unfold HasYear at hasYear
    omega
  refine ⟨x, ?_, ?_⟩
  · have found : ((k.day? t.year t.month t.day).bind fun d =>
        k.time? d t.hour t.minute t.second) = some x := Option.bind_eq_some_iff.2 ⟨d, day, time⟩
    rw [ofInstant, if_pos fits32, found]
  · rw [fields, date]
    rfl

/-- What goes over to a clock has a year of the clock. -/
theorem hasYear_of_ofInstant {t : Instant} {x : k.Time} (went : k.ofInstant t = .ok x) :
    HasYear t.year := by
  rw [ofInstant] at went
  split at went
  · split at went
    · next found =>
      obtain ⟨d, day, -⟩ := Option.bind_eq_some_iff.1 found
      have hasYear := (h.day_real d).1
      rw [h.date_of_day? _ _ _ _ day] at hasYear
      exact hasYear
    · cases went
  · cases went

/-- The next place has the next count. -/
theorem timestamp_succ {a b : Instant} {x y : k.Time} (hx : k.fields x = a.fields)
    (hy : k.fields y = b.fields) (next : b.position = a.position + 1) :
    k.timestamp y = k.timestamp x + 1 :=
  h.timestamp_secondAfter x y (by rw [hy, hx, Instant.fields_secondAfter next])

/-- A clock has a time at every place of its years. -/
theorem exists_time_at {p : Int} (lo : ClockTime.first.position ≤ p)
    (hi : p ≤ ClockTime.last.position) :
    ∃ (t : Instant) (x : k.Time), t.position = p ∧ k.fields x = t.fields := by
  obtain ⟨t, rfl⟩ := Instant.exists_position_iff.2
    ⟨(Instant.position_le_iff.2 (Instant.earliest_le _)).trans lo,
      hi.trans (Instant.position_le_iff.2 (Instant.le_latest _))⟩
  obtain ⟨x, -, fields⟩ := h.ofInstant_eq_ok (ClockTime.hasYear_iff.2 ⟨lo, hi⟩)
  exact ⟨t, x, rfl, fields⟩

/-- **The count of a clock is the place on the line of seconds.** -/
theorem timestamp_eq_position {x : k.Time} {t : Instant} (eq : k.fields x = t.fields)
    (hasYear : HasYear t.year) : k.timestamp x = t.position := by
  have start : ClockTime.first.position = -8334601228800 := by decide
  have stop : ClockTime.last.position = 8210266876799 := by decide
  have inYears := ClockTime.hasYear_iff.1 hasYear
  -- Both ways from 1970, a place is one away from a place that is nearer.
  generalize hp : t.position = p at inYears ⊢
  induction p using Int.induction_on generalizing x t with
  | zero =>
    have epoch : t = Instant.epoch := Instant.position_inj.1 hp
    exact h.timestamp_epoch x (by rw [eq, epoch]; rfl)
  | succ n ih =>
    obtain ⟨a, y, ha, hy⟩ := h.exists_time_at (p := n) (by omega) (by omega)
    have one := h.timestamp_succ hy eq (by omega)
    rw [one, ih hy (ClockTime.hasYear_iff.2 (by omega)) ha (by omega)]
  | pred n ih =>
    obtain ⟨b, y, hb, hy⟩ := h.exists_time_at (p := -n) (by omega) (by omega)
    have one := h.timestamp_succ eq hy (by omega)
    have near := ih hy (ClockTime.hasYear_iff.2 (by omega)) hb (by omega)
    omega

end IsGregorian

end Timekeeper

/-! ## The clock of this library -/

namespace Instant

/-- Instants with the same fields are the same. -/
theorem fields_inj {a b : Instant} : a.fields = b.fields ↔ a = b := by
  refine ⟨fun eq => ?_, congrArg fields⟩
  obtain ⟨year, month, day, hour, minute, second⟩ := a
  obtain ⟨_, _, _, _, _, _⟩ := b
  simpa [fields] using eq

end Instant

namespace ClockTime

/-- A second has room for no nanoseconds at all. -/
theorem zero_nanos_lt : 0 < 2000000000 := by decide

/-- The time of a day at an hour, a minute and a second, if there is one. -/
def ofParts? (d : ClockDate) (hour minute second : Nat) : Option ClockTime :=
  if h : hour ≤ 23 ∧ minute ≤ 59 ∧ second ≤ 59 then
    some { d with
      secondOfDay := hour * 3600 + minute * 60 + second, nanos := 0
      secondOfDay_lt := by omega, nanos_lt := zero_nanos_lt, leap := by omega }
  else none

/-- Days and times of a clock, asked from the outside. -/
def keeper : Timekeeper where
  Day := ClockDate
  Time := ClockTime
  day? year month day := ClockDate.ofDate? ⟨year, month, day⟩
  time? := ofParts?
  ofTimestamp? := ofTimestamp?
  date d := d.date
  fields c := (Instant.ofClockTime c).fields
  timestamp := timestamp

/-- The day of a date has this date. -/
theorem date_of_ofDate? {date : CivilDate} {d : ClockDate} (h : ClockDate.ofDate? date = some d) :
    d.date = date := by
  unfold ClockDate.ofDate? at h
  split at h <;> cases h
  rfl

/-- A time made of a day and a time of day has their fields for its instant. -/
theorem fields_of_ofParts? {d : ClockDate} {hour minute second : Nat} {c : ClockTime}
    (h : ofParts? d hour minute second = some c) : (Instant.ofClockTime c).fields =
      ⟨d.date.year, d.date.month, d.date.day, hour, minute, second⟩ := by
  unfold ofParts? at h
  split at h <;> cases h
  simp only [Instant.ofClockTime, Instant.ofClockDate, Instant.midnight, Instant.fields,
    Fields.mk.injEq, true_and]
  omega

/-- A time at a count has this count, whatever its nanoseconds are. -/
theorem timestamp_of_ofTimestamp? {seconds : Int} {nanos : Nat} {c : ClockTime}
    (h : ofTimestamp? seconds nanos = some c) : c.timestamp = seconds := by
  unfold ofTimestamp? at h
  obtain ⟨d, day, time⟩ := Option.bind_eq_some_iff.1 h
  dsimp only at time
  split at time <;> cases time
  simp only [timestamp, date_of_ofDate? day, Calendar.dayNumber_civilOfDay]
  omega

/-- The count of a time is the position of its instant. -/
theorem timestamp_eq (c : ClockTime) : c.timestamp = (Instant.ofClockTime c).position := by
  have parts : (Instant.ofClockTime c).secondOfDay = c.secondOfDay := by
    simp only [Instant.secondOfDay, Instant.ofClockTime]
    omega
  rw [Instant.position, parts, timestamp, Int.mul_comm]
  rfl

/-- The count starts with the first second of 1970. -/
theorem timestamp_epoch {c : ClockTime} (h : Instant.ofClockTime c = Instant.epoch) :
    c.timestamp = 0 := by
  rw [timestamp_eq, h]
  rfl

/-- The second after counts one more. -/
theorem timestamp_secondAfter {c d : ClockTime}
    (h : (Instant.ofClockTime d).fields = (Instant.ofClockTime c).fields.secondAfter) :
    d.timestamp = c.timestamp + 1 := by
  have inYears := (hasYear_iff (t := Instant.ofClockTime c)).1 c.hasYear
  have stop : last.position < Instant.latest.position := by decide
  obtain ⟨t, place⟩ := Instant.exists_position_iff.2
    ⟨(Instant.position_le_iff.2 (Instant.earliest_le (Instant.ofClockTime c))).trans (by omega),
      (by omega : (Instant.ofClockTime c).position + 1 ≤ Instant.latest.position)⟩
  rw [← Instant.fields_secondAfter place, Instant.fields_inj] at h
  rw [timestamp_eq, timestamp_eq, h, place]

/-- **The clock keeps universal time.** -/
theorem keeper_isGregorian : keeper.IsGregorian where
  day_real d := ⟨d.hasYear, d.dateExists⟩
  time_real c := ⟨c.hasYear, c.dateExists, (Instant.ofClockTime c).hour_le,
    (Instant.ofClockTime c).minute_le⟩
  second_le c := (Instant.ofClockTime c).second_le
  exists_day date hasYear real := ⟨⟨date, hasYear, real⟩, dif_pos ⟨hasYear, real⟩⟩
  date_of_day? _ _ _ _ := date_of_ofDate?
  exists_time _ _ _ _ hour minute second := ⟨_, dif_pos ⟨hour, minute, second⟩⟩
  fields_of_time? _ _ _ _ _ := fields_of_ofParts?
  timestamp_epoch _ eq := timestamp_epoch (Instant.fields_inj.1 eq)
  timestamp_secondAfter _ _ := timestamp_secondAfter
  timestamp_of_ofTimestamp? _ _ _ := timestamp_of_ofTimestamp?

/-- Asked for an instant, the clock answers with the time that the instant goes over to. -/
theorem keeper_ofInstant (t : Instant) : keeper.ofInstant t = t.toClockTime := by
  rw [Timekeeper.ofInstant, Instant.toClockTime]
  congr 1
  by_cases hasYear : HasYear t.year
  · have found : ((keeper.day? t.year t.month t.day).bind fun d =>
        keeper.time? d t.hour t.minute t.second) = _ :=
      Option.bind_eq_some_iff.2 ⟨⟨t.date, hasYear, t.exists_date⟩,
        dif_pos ⟨hasYear, t.exists_date⟩, dif_pos ⟨t.hour_le, t.minute_le, t.second_le⟩⟩
    rw [dif_pos hasYear, found]
    rfl
  · have day : keeper.day? t.year t.month t.day = none := dif_neg fun h => hasYear h.1
    rw [dif_neg hasYear, day]
    rfl

/-- On every machine a time of the clock comes back as its instant. -/
theorem keeper_toFields (m : Machine) (c : ClockTime) :
    keeper.toFields m c = some (Instant.ofClockTime c).fields :=
  keeper_isGregorian.toFields_eq_fields m c

/-- On every machine a day of the clock comes back as its midnight. -/
theorem keeper_midnight (m : Machine) (d : ClockDate) :
    keeper.midnight m d = some (Instant.ofClockDate d).fields :=
  keeper_isGregorian.midnight_eq d

/-- The leap second that 1969 might have ended with, near its end. -/
def leapSecond : ClockTime :=
  { date := ⟨1969, 12, 31⟩, hasYear := by decide, dateExists := by decide
    secondOfDay := 86399, nanos := 1999999999
    secondOfDay_lt := by decide, nanos_lt := by decide, leap := by decide }

end ClockTime

namespace Timekeeper

/-- **Going over to a clock is exact.**  Just the instants in the years of a clock go over to it; the
time there has the count of seconds of the instant and comes back as the instant.  And a time that a
clock makes from a count of seconds and nanoseconds, of a leap second or not, comes back as the
instant at this count, which is a real one. -/
theorem conversion_exact {k : Timekeeper} (h : k.IsGregorian) (m : Machine) :
    (∀ t : Instant, ((∃ x, k.ofInstant t = .ok x) ↔ HasYear t.year) ∧
      ∀ x, k.ofInstant t = .ok x →
        t.secondsSinceEpoch? = some (k.timestamp x) ∧ k.toFields m x = some t.fields) ∧
    ∀ seconds nanos x, k.ofTimestamp? seconds nanos = some x →
      ∃ t, Instant.ofSeconds seconds = .ok t ∧ k.toFields m x = some t.fields ∧
        t.fields.IsReal := by
  constructor
  · intro t
    refine ⟨⟨fun ⟨x, went⟩ => h.hasYear_of_ofInstant went, fun hasYear => ?_⟩, fun x went => ?_⟩
    · obtain ⟨x, went, -⟩ := h.ofInstant_eq_ok hasYear
      exact ⟨x, went⟩
    · have hasYear := h.hasYear_of_ofInstant went
      obtain ⟨y, goes, fields⟩ := h.ofInstant_eq_ok hasYear
      obtain rfl : x = y := Except.ok.inj (went.symm.trans goes)
      rw [h.timestamp_eq_position fields hasYear]
      exact ⟨ClockTime.secondsSinceEpoch?_of_hasYear hasYear,
        (h.toFields_eq_fields m x).trans (congrArg some fields)⟩
  · intro seconds nanos x made
    obtain ⟨t, fields, hasYear⟩ := h.exists_instant x
    have place : t.position = seconds :=
      (h.timestamp_eq_position fields hasYear).symm.trans (h.timestamp_of_ofTimestamp? _ _ _ made)
    exact ⟨t, Instant.ofSeconds_eq_ok_iff.2 place,
      (h.toFields_eq_fields m x).trans (congrArg some fields), t.isReal_fields⟩

/-- The hypothesis of `conversion_exact` holds of the clock of this library.  So a leap day before
year 0 goes over to it and comes back, the first second that it does not count does not go over, and
the leap second at the count of -1, were there one, comes back as the last second of 1969. -/
theorem conversion_exact_leap_second :
    ClockTime.keeper.IsGregorian ∧
    (∃ x, ClockTime.keeper.ofInstant (.ofReal (by decide : Instant.IsReal (-4) 2 29 8 30 0)) =
      .ok x ∧ ClockTime.keeper.toFields .strict x = some ⟨-4, 2, 29, 8, 30, 0⟩) ∧
    (¬ ∃ x, ClockTime.keeper.ofInstant (.ofReal (by decide : Instant.IsReal 262143 1 1 0 0 0)) =
      .ok x) ∧
    ∃ x, ClockTime.keeper.ofTimestamp? (-1) 1999999999 = some x ∧
      ClockTime.keeper.toFields .strict x = some ⟨1969, 12, 31, 23, 59, 59⟩ := by
  have keeps := ClockTime.keeper_isGregorian
  obtain ⟨instants, times⟩ := conversion_exact keeps .strict
  refine ⟨keeps, ?_, fun goes => absurd ((instants _).1.1 goes) (by decide), ?_⟩
  · obtain ⟨x, went⟩ :=
      (instants (.ofReal (by decide : Instant.IsReal (-4) 2 29 8 30 0))).1.2 (by decide)
    exact ⟨x, went, ((instants _).2 x went).2⟩
  · obtain ⟨t, counted, comesBack, -⟩ := times (-1) 1999999999 ClockTime.leapSecond rfl
    obtain rfl : Instant.ofReal (by decide : Instant.IsReal 1969 12 31 23 59 59) = t :=
      Except.ok.inj ((by decide : Instant.ofSeconds (-1) = .ok (.ofReal _)).symm.trans counted)
    exact ⟨ClockTime.leapSecond, rfl, comesBack⟩

end Timekeeper

end DateFacet
