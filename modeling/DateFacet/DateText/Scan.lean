/-
# Reading the written forms

The forms are read from left to right without going back: after each part, the next character
says which part follows.  A scanner takes what it can from the front of the characters and gives
what it took with the rest, or nothing if it cannot start.
-/

import DateFacet.DateText.Form

namespace DateFacet
namespace DateText

open Text (isDecimal)

/-- A sign, if one stands in front. -/
def scanSign : List Char → Option Sign × List Char
  | '+' :: rest => (some .plus, rest)
  | '-' :: rest => (some .minus, rest)
  | cs => (none, cs)

/-- All digits in front; there must be one. -/
def scanRun (cs : List Char) : Option (List Char × List Char) :=
  if (cs.takeWhile isDecimal).isEmpty then none
  else some (cs.takeWhile isDecimal, cs.dropWhile isDecimal)

/-- Two digits. -/
def scanPair : List Char → Option (List Char × List Char)
  | a :: b :: rest => if isDecimal a && isDecimal b then some ([a, b], rest) else none
  | _ => none

/-- Two digits, or else one. -/
def scanShort : List Char → Option (List Char × List Char)
  | a :: b :: rest =>
    if isDecimal a then
      if isDecimal b then some ([a, b], rest) else some ([a], b :: rest)
    else none
  | [a] => if isDecimal a then some ([a], []) else none
  | [] => none

/-- The hours and minutes of an offset, up to the end. -/
def scanOffset (sign : Sign) (cs : List Char) : Option Zone := do
  let (hour, rest) ← scanPair cs
  let (colon, rest) := match rest with
    | ':' :: rest => (true, rest)
    | rest => (false, rest)
  let (minute, rest) ← scanPair rest
  if rest.isEmpty then some (.offset sign hour colon minute) else none

/-- A zone or nothing, up to the end. -/
def scanZone : List Char → Option (Option Zone)
  | [] => some none
  | ['Z'] => some (some (.universal 'Z'))
  | ['z'] => some (some (.universal 'z'))
  | '+' :: rest => (scanOffset .plus rest).map some
  | '-' :: rest => (scanOffset .minus rest).map some
  | _ => none

/-- The fraction of a second, if a mark for one stands in front. -/
def scanFraction : List Char → Option (Option (Char × List Char) × List Char)
  | '.' :: rest => (scanRun rest).map fun (digits, rest) => (some ('.', digits), rest)
  | ',' :: rest => (scanRun rest).map fun (digits, rest) => (some (',', digits), rest)
  | cs => some (none, cs)

/-- The seconds, if a colon stands in front. -/
def scanSeconds : List Char → Option (Option Seconds × List Char)
  | ':' :: rest => do
    let (digits, rest) ← scanPair rest
    let (fraction, rest) ← scanFraction rest
    some (some ⟨digits, fraction⟩, rest)
  | cs => some (none, cs)

/-- The time of day after its gap, up to the end. -/
def scanClock (gap : Char) (cs : List Char) : Option Clock := do
  let (hour, rest) ← scanPair cs
  match rest with
  | ':' :: rest =>
    let (minute, rest) ← scanPair rest
    let (seconds, rest) ← scanSeconds rest
    let zone ← scanZone rest
    some ⟨gap, hour, minute, seconds, zone⟩
  | _ => none

/-- What follows the year, up to the end. -/
def scanDetail : List Char → Option Detail
  | [] => some .year
  | '-' :: rest => do
    let (month, rest) ← scanShort rest
    match rest with
    | [] => some (.month month)
    | '-' :: rest => do
      let (day, rest) ← scanShort rest
      match rest with
      | [] => some (.day month day)
      | 'T' :: rest => (scanClock 'T' rest).map (.time month day)
      | ' ' :: rest => (scanClock ' ' rest).map (.time month day)
      | _ => none
    | _ => none
  | _ => none

/-- A date with dashes. -/
def scanDashes (cs : List Char) : Option Form := do
  let (sign, rest) := scanSign cs
  let (year, rest) ← scanRun rest
  let detail ← scanDetail rest
  some (.dashes sign year detail)

/-- A number of one or two digits and the slash after it. -/
def scanBeforeSlash (cs : List Char) : Option (List Char × List Char) := do
  let (number, rest) ← scanShort cs
  match rest with
  | '/' :: rest => some (number, rest)
  | _ => none

/-- A date with slashes. -/
def scanSlashes (cs : List Char) : Option Form := do
  let (first, rest) ← scanBeforeSlash cs
  let (second, rest) ← scanBeforeSlash rest
  let (sign, rest) := scanSign rest
  let (year, rest) ← scanRun rest
  if rest.isEmpty then some (.slashes first second sign year) else none

/-- The form of the characters, if they have one. -/
def scan (cs : List Char) : Option Form :=
  (scanDashes cs).or (scanSlashes cs)

end DateText
end DateFacet
