/-
# Instants on the line of seconds

Every instant has a place on the line of seconds from 1970-01-01T00:00:00Z, an integer of any
size.  `secondsSinceEpoch?` gives it where it fits in 64 bits; `ofSeconds` goes back from a
count to the instant, and `shift` moves an instant by minutes of either sign, carrying days
apart from the minute of the day, so that it needs no count of seconds at all.  It keeps its counts
of minutes and of days to 64 bits, and the second never changes.
-/

import DateFacet.Instant.Written

namespace DateFacet
namespace Instant

open Calendar (dayNumber civilOfDay)

/-- An integer of 64 bits with a sign. -/
def Fits64 (n : Int) : Prop := -9223372036854775808 ≤ n ∧ n ≤ 9223372036854775807

instance (n : Int) : Decidable (Fits64 n) := by
  unfold Fits64; infer_instance

/-- The days from 1970-01-01 to the day of the instant. -/
def daysSinceEpoch (t : Instant) : Int := dayNumber t.date

/-- The seconds of the day that have passed. -/
def secondOfDay (t : Instant) : Nat := t.hour * 3600 + t.minute * 60 + t.second

/-- The minutes of the day that have passed. -/
def minuteOfDay (t : Instant) : Nat := t.hour * 60 + t.minute

/-- The place on the line of seconds. -/
def position (t : Instant) : Int := 86400 * t.daysSinceEpoch + t.secondOfDay

/-- The place on the line of seconds, where both the seconds up to midnight and those up to the
instant fit in 64 bits. -/
def secondsSinceEpoch? (t : Instant) : Option Int :=
  if Fits64 (t.daysSinceEpoch * 86400) ∧ Fits64 (t.daysSinceEpoch * 86400 + t.secondOfDay) then
    some (t.daysSinceEpoch * 86400 + t.secondOfDay)
  else none

/-- The instant of a day and a second of the day. -/
def ofDayAndSecond (day : Int) (second : Nat) : Except Fault Instant :=
  let date := civilOfDay day
  ofFields date.year date.month date.day (second / 3600) (second % 3600 / 60) (second % 60)

/-- The instant at a place on the line of seconds. -/
def ofSeconds (seconds : Int) : Except Fault Instant :=
  ofDayAndSecond (seconds / 86400) (seconds % 86400).toNat

/-- The instant `minutes` later, or earlier when the number is negative. -/
def shift (t : Instant) (minutes : Int) : Except Fault Instant :=
  let total := t.minuteOfDay + minutes
  let day := t.daysSinceEpoch + total / 1440
  if Fits64 total ∧ Fits64 day then
    let date := civilOfDay day
    let minute := (total % 1440).toNat
    ofFields date.year date.month date.day (minute / 60) (minute % 60) t.second
  else .error (.shiftLength t.text minutes)

end Instant
end DateFacet
