/-
# Why a text or a group of fields names no instant

Each cause is a constructor with the values that went wrong, and `Fault.reason` words it.
-/

import DateFacet.Text.Decimal

namespace DateFacet
namespace Instant

open Text (padded)

/-- The largest year in either direction. -/
def maxYear : Nat := 999999999999

/-- The parts of a written date that hold a small number. -/
inductive Part
  | month
  | day
  | hour
  | minute
  | second
  | offsetHour
  | offsetMinute
  /-- The number before the first slash of a date with slashes. -/
  | beforeFirstSlash
  /-- The number between the slashes. -/
  | betweenSlashes
  deriving DecidableEq

/-- The name of a part in a message. -/
def Part.name : Part → String
  | .month => "month"
  | .day => "day"
  | .hour => "hour"
  | .minute => "minute"
  | .second => "second"
  | .offsetHour => "offset_hour"
  | .offsetMinute => "offset_minute"
  | .beforeFirstSlash => "first"
  | .betweenSlashes => "second"

/-- The causes for which there is no instant. -/
inductive Fault
  /-- A year beyond `maxYear` in either direction. -/
  | year (year : Int)
  /-- A number that names no month. -/
  | month (month : Nat)
  /-- A day that its month does not have. -/
  | day (day last : Nat) (year : Int) (month : Nat)
  /-- An hour past 23. -/
  | hour (hour : Nat)
  /-- A minute past 59. -/
  | minute (minute : Nat)
  /-- A second past 59. -/
  | second (second : Nat)
  /-- A shift so long that the count of minutes leaves 64 bits. -/
  | shiftLength (origin : String) (minutes : Int)
  /-- A year that a clock does not count to, too large for 32 bits. -/
  | clockYear (year : Int)
  /-- An instant that a clock does not count to. -/
  | clockRange (instant : String)
  /-- A text of blanks only. -/
  | emptyText
  /-- A text in none of the written forms. -/
  | unrecognised (text : String)
  /-- A written year that is too large or has digits outside ASCII. -/
  | yearText (digits : String)
  /-- A written number with digits outside ASCII. -/
  | partText (part : Part) (digits : String)
  /-- An offset from UTC of more than 23 hours or 59 minutes. -/
  | offset (hour minute : Nat)
  /-- A reason that the caller words. -/
  | stated (reason : String)
  deriving DecidableEq

/-- The wording of a cause. -/
def Fault.reason : Fault → String
  | .year y => s!"year {y} exceeds ±{maxYear}"
  | .month m => s!"month {m} is not in 1..=12"
  | .day d last y m =>
    s!"day {d} is not in 1..={last} for {y}-{String.ofList (padded 2 m)}"
  | .hour h => s!"hour {h} is not in 0..=23"
  | .minute m => s!"minute {m} is not in 0..=59"
  | .second s => s!"second {s} is not in 0..=59"
  | .shiftLength origin minutes => s!"shifting {origin} by {minutes} minutes overflows"
  | .clockYear y => s!"year {y} is outside chrono's range"
  | .clockRange instant => s!"{instant} is outside chrono's range"
  | .emptyText => "empty text"
  | .unrecognised text => s!"'{text}' is not a recognised date"
  | .yearText digits => s!"year '{digits}' is out of range"
  | .partText part digits => s!"{part.name} '{digits}': invalid digit found in string"
  | .offset h m =>
    s!"offset {String.ofList (padded 2 h)}:{String.ofList (padded 2 m)} is out of range"
  | .stated reason => reason

end Instant
end DateFacet
