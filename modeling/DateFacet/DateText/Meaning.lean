/-
# What a date text means

A written date names the instant at the start of what it spells: a missing month or day is the
first, and a missing time is midnight.  A fraction of a second is dropped.  An offset is taken
away from the local time, so the instant is in universal time.

The parts are checked from left to right: the year, the other numbers, the calendar, and then
the offset.  A date with slashes has its day and its month in the order that the reader is told.
-/

import DateFacet.DateText.Scan
import DateFacet.Instant.Timeline
import DateFacet.Text.Blank

namespace DateFacet

/-- Which of the two leading numbers of a date with slashes is the day. -/
inductive SlashOrder
  | dayFirst
  | monthFirst
  deriving DecidableEq, Inhabited

namespace DateText

open Instant (Fault Part maxYear)
open Text (digitsValue)

/-- The number of a part, which must be spelt with ASCII digits. -/
def partNumber (part : Part) (digits : List Char) : Except Fault Nat :=
  if digits.all Char.isDigit then .ok (digitsValue digits)
  else .error (.partText part (String.ofList digits))

/-- The number of a year, which must be spelt with ASCII digits and be at most `maxYear`; zeros
in front do not count. -/
def yearNumber (sign : Option Sign) (digits : List Char) : Except Fault Int :=
  if digits.all Char.isDigit ∧ digitsValue digits ≤ maxYear then
    .ok ((sign.getD .plus).apply (digitsValue digits))
  else .error (.yearText (String.ofList digits))

/-- The number of the seconds, or zero without any. -/
def secondNumber : Option Seconds → Except Fault Nat
  | none => .ok 0
  | some s => partNumber .second s.digits

/-- Local time, with the year known. -/
def Detail.localTime (year : Int) : Detail → Except Fault Instant
  | .year => Instant.ofDate year 1 1
  | .month m => do Instant.ofDate year (← partNumber .month m) 1
  | .day m d => do
    let month ← partNumber .month m
    let day ← partNumber .day d
    Instant.ofDate year month day
  | .time m d clock => do
    let month ← partNumber .month m
    let day ← partNumber .day d
    let hour ← partNumber .hour clock.hour
    let minute ← partNumber .minute clock.minute
    let second ← secondNumber clock.seconds
    Instant.ofFields year month day hour minute second

/-- The zone that a form gives. -/
def Detail.zone : Detail → Option Zone
  | .time _ _ clock => clock.zone
  | _ => none

/-- The minutes by which a zone is ahead of universal time. -/
def Zone.minutesAhead : Zone → Except Fault Int
  | .universal _ => .ok 0
  | .offset sign h _ m => do
    let hour ← partNumber .offsetHour h
    let minute ← partNumber .offsetMinute m
    if hour ≤ 23 ∧ minute ≤ 59 then .ok (sign.apply (hour * 60 + minute))
    else .error (.offset hour minute)

/-- Universal time from local time and the zone. -/
def universalTime (localTime : Instant) : Option Zone → Except Fault Instant
  | some (.offset sign hour colon minute) => do
    let ahead ← (Zone.offset sign hour colon minute).minutesAhead
    localTime.shift (-ahead)
  | _ => .ok localTime

/-- The instant that a form names. -/
def Form.instant (order : SlashOrder) : Form → Except Fault Instant
  | .dashes sign y detail => do
    let year ← yearNumber sign y
    let localTime ← detail.localTime year
    universalTime localTime detail.zone
  | .slashes a b sign y => do
    let year ← yearNumber sign y
    let first ← partNumber .beforeFirstSlash a
    let second ← partNumber .betweenSlashes b
    match order with
    | .dayFirst => Instant.ofDate year second first
    | .monthFirst => Instant.ofDate year first second

/-- The instant that characters name, once the blanks around them are gone. -/
def instantOfChars (order : SlashOrder) (cs : List Char) : Except Fault Instant :=
  if cs.isEmpty then .error .emptyText
  else match scan cs with
    | some form => form.instant order
    | none => .error (.unrecognised (String.ofList cs))

end DateText

/-- The instant that a text names, with or without blanks around it. -/
def Instant.ofText (order : SlashOrder) (text : String) : Except Instant.Fault Instant :=
  DateText.instantOfChars order (Text.trimChars text.toList)

/-- The text names an instant. -/
def Instant.isText (order : SlashOrder) (text : String) : Bool :=
  (Instant.ofText order text).toOption.isSome

/-- A text of blanks is empty to the reader of dates. -/
theorem Instant.ofText_of_blank (order : SlashOrder) {text : String} (h : Text.trim text = "") :
    ofText order text = .error .emptyText := by
  have trimmed : Text.trimChars text.toList = [] := by rw [← Text.toList_trim, h]; rfl
  rw [ofText, trimmed]
  rfl

/-- The blanks around a text make no difference to the reader of dates. -/
theorem Instant.ofText_trim (order : SlashOrder) (text : String) :
    ofText order (Text.trim text) = ofText order text := by
  rw [ofText, Text.toList_trim, Text.trimChars_trimChars]
  rfl

end DateFacet
