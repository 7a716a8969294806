/-
# The written forms of a date

A date is written in one of two forms, with digits of any script:

| form | shape |
| --- | --- |
| dashes | `[+-]Y…[-M[-D[(T or space)HH:MM[:SS[(. or ,)F…]][zone]]]]` |
| slashes | `A/B/[+-]Y…` |

A zone is `Z`, `z`, `±HH:MM` or `±HHMM`.  Months, days, `A` and `B` have one or two digits, and
hours, minutes and seconds exactly two.

A form keeps every character that was written: `Form.chars` spells it out again, and `Form.Fits`
says which digit runs it may hold.  Reading a form is in `DateFacet.DateText.Scan`, its meaning in
`DateFacet.DateText.Meaning`.
-/

import DateFacet.Text.Decimal

namespace DateFacet
namespace DateText

open Text (isDecimal)

/-- A sign before a number. -/
inductive Sign
  | plus
  | minus
  deriving DecidableEq

/-- The character of a sign. -/
def Sign.char : Sign → Char
  | .plus => '+'
  | .minus => '-'

/-- The number with the sign before it. -/
def Sign.apply : Sign → Nat → Int
  | .plus, n => n
  | .minus, n => -n

/-- What stands after the time of day. -/
inductive Zone
  /-- Universal time, marked by `Z` or `z`. -/
  | universal (mark : Char)
  /-- Local time, so many hours and minutes ahead of universal time or behind it. -/
  | offset (sign : Sign) (hour : List Char) (colon : Bool) (minute : List Char)
  deriving DecidableEq

/-- The seconds of a time, with the mark and the digits of a fraction. -/
structure Seconds where
  digits : List Char
  fraction : Option (Char × List Char)
  deriving DecidableEq

/-- A time of day after a `T` or a space. -/
structure Clock where
  gap : Char
  hour : List Char
  minute : List Char
  seconds : Option Seconds
  zone : Option Zone
  deriving DecidableEq

/-- How far a date with dashes goes after its year. -/
inductive Detail
  | year
  | month (month : List Char)
  | day (month day : List Char)
  | time (month day : List Char) (clock : Clock)
  deriving DecidableEq

/-- A written date. -/
inductive Form
  | dashes (sign : Option Sign) (year : List Char) (detail : Detail)
  | slashes (first second : List Char) (sign : Option Sign) (year : List Char)
  deriving DecidableEq

/-! ## Spelling -/

/-- The character of a sign, or none. -/
def signChars (sign : Option Sign) : List Char :=
  (sign.map Sign.char).toList

/-- The characters of a zone. -/
def Zone.chars : Zone → List Char
  | .universal mark => [mark]
  | .offset sign hour colon minute =>
    sign.char :: hour ++ (if colon then [':'] else []) ++ minute

/-- The characters of the seconds, from the colon before them. -/
def Seconds.chars (s : Seconds) : List Char :=
  ':' :: s.digits ++
    match s.fraction with
    | none => []
    | some (mark, digits) => mark :: digits

/-- The characters of a time of day, from the gap before it. -/
def Clock.chars (c : Clock) : List Char :=
  c.gap :: c.hour ++ ':' :: c.minute ++
    (match c.seconds with
      | none => []
      | some s => s.chars) ++
    match c.zone with
    | none => []
    | some z => z.chars

/-- The characters after the year. -/
def Detail.chars : Detail → List Char
  | .year => []
  | .month m => '-' :: m
  | .day m d => '-' :: m ++ '-' :: d
  | .time m d clock => '-' :: m ++ '-' :: d ++ clock.chars

/-- The characters of a written date. -/
def Form.chars : Form → List Char
  | .dashes sign year detail => signChars sign ++ year ++ detail.chars
  | .slashes first second sign year =>
    first ++ '/' :: second ++ '/' :: signChars sign ++ year

/-! ## Which digits a form may hold -/

/-- At least one digit of any script. -/
def IsRun (cs : List Char) : Prop := cs ≠ [] ∧ ∀ c ∈ cs, isDecimal c = true

/-- Two digits of any script. -/
def IsPair (cs : List Char) : Prop := cs.length = 2 ∧ ∀ c ∈ cs, isDecimal c = true

/-- One or two digits of any script. -/
def IsShort (cs : List Char) : Prop := IsRun cs ∧ cs.length ≤ 2

/-- The digits and marks that a zone may hold. -/
def Zone.Fits : Zone → Prop
  | .universal mark => mark = 'Z' ∨ mark = 'z'
  | .offset _ hour _ minute => IsPair hour ∧ IsPair minute

/-- The digits and marks that seconds may hold. -/
def Seconds.Fits (s : Seconds) : Prop :=
  IsPair s.digits ∧ ∀ f ∈ s.fraction, (f.1 = '.' ∨ f.1 = ',') ∧ IsRun f.2

/-- The digits and marks that a time of day may hold. -/
def Clock.Fits (c : Clock) : Prop :=
  (c.gap = 'T' ∨ c.gap = ' ') ∧ IsPair c.hour ∧ IsPair c.minute ∧
    (∀ s ∈ c.seconds, s.Fits) ∧ ∀ z ∈ c.zone, z.Fits

/-- The digits that may stand after the year. -/
def Detail.Fits : Detail → Prop
  | .year => True
  | .month m => IsShort m
  | .day m d => IsShort m ∧ IsShort d
  | .time m d clock => IsShort m ∧ IsShort d ∧ clock.Fits

/-- The digits that a written date may hold. -/
def Form.Fits : Form → Prop
  | .dashes _ year detail => IsRun year ∧ detail.Fits
  | .slashes first second _ year => IsShort first ∧ IsShort second ∧ IsRun year

end DateText
end DateFacet
