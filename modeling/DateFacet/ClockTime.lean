/-
# Clock times

A clock keeps UTC as a day and a second of the day, with nanoseconds beside it, for the years
-262143 to 262142.  During a leap second it stays on second 59 and lets the nanoseconds run past
a thousand million.

An instant has no nanoseconds, so `Instant.ofClockTime` drops them, and a leap second becomes the
second before it.  The other way, `Instant.toClockTime` refuses the years that a clock does not
count.
-/

import DateFacet.Instant.Timeline

namespace DateFacet

open Calendar (dayNumber civilOfDay)

/-- The years that a clock counts. -/
def ClockTime.HasYear (year : Int) : Prop := -262143 ≤ year ∧ year ≤ 262142

instance (year : Int) : Decidable (ClockTime.HasYear year) := by
  unfold ClockTime.HasYear; infer_instance

/-- A day of the calendar in the years that a clock counts. -/
structure ClockDate where
  date : CivilDate
  hasYear : ClockTime.HasYear date.year
  dateExists : Calendar.Exists date

/-- A day, a second of the day and the nanoseconds since that second began. -/
structure ClockTime extends ClockDate where
  secondOfDay : Nat
  nanos : Nat
  secondOfDay_lt : secondOfDay < 86400
  nanos_lt : nanos < 2000000000
  /-- The nanoseconds pass a thousand million in second 59 only. -/
  leap : 1000000000 ≤ nanos → secondOfDay % 60 = 59

/-- The clock's day with these numbers, if there is one. -/
def ClockDate.ofDate? (date : CivilDate) : Option ClockDate :=
  if h : ClockTime.HasYear date.year ∧ Calendar.Exists date then some ⟨date, h.1, h.2⟩ else none

/-- The clock's time at a count of seconds from 1970 and of nanoseconds, if it has one. -/
def ClockTime.ofTimestamp? (seconds : Int) (nanos : Nat) : Option ClockTime := do
  let day ← ClockDate.ofDate? (civilOfDay (seconds / 86400))
  let secondOfDay := (seconds % 86400).toNat
  if h : nanos < 2000000000 ∧ (1000000000 ≤ nanos → secondOfDay % 60 = 59) then
    return { day with secondOfDay, nanos, secondOfDay_lt := by omega, nanos_lt := h.1, leap := h.2 }
  else none

/-- The seconds from 1970 to the clock's time; a leap second counts as the one before it. -/
def ClockTime.timestamp (c : ClockTime) : Int :=
  dayNumber c.date * 86400 + c.secondOfDay

/-- The year of a clock is far inside the years of an instant. -/
theorem ClockDate.year_le (c : ClockDate) : c.date.year.natAbs ≤ Instant.maxYear := by
  have h := c.hasYear
  unfold ClockTime.HasYear at h
  unfold Instant.maxYear
  omega

namespace Instant

/-- Midnight of a clock's day. -/
def ofClockDate (c : ClockDate) : Instant :=
  midnight c.date.year c.date.month c.date.day c.year_le
    ⟨c.dateExists.1, c.dateExists.2.1⟩ c.dateExists.2.2

/-- The instant of a clock's time, without its nanoseconds. -/
def ofClockTime (c : ClockTime) : Instant :=
  { ofClockDate c.toClockDate with
    hour := c.secondOfDay / 3600, minute := c.secondOfDay % 3600 / 60, second := c.secondOfDay % 60
    hour_le := by have := c.secondOfDay_lt; omega
    minute_le := by omega
    second_le := by omega }

/-- The clock's time of an instant; a year that needs more than 32 bits is a fault of its own. -/
def toClockTime (t : Instant) : Except Fault ClockTime :=
  if -2147483648 ≤ t.year ∧ t.year ≤ 2147483647 then
    if h : ClockTime.HasYear t.year then
      .ok { date := t.date, hasYear := h
            dateExists := ⟨t.month_mem.1, t.month_mem.2, t.day_mem⟩
            secondOfDay := t.secondOfDay, nanos := 0
            secondOfDay_lt := by
              have := t.hour_le; have := t.minute_le; have := t.second_le
              unfold secondOfDay; omega
            nanos_lt := by decide
            leap := by omega }
    else .error (.clockRange t.text)
  else .error (.clockYear t.year)

end Instant
end DateFacet
