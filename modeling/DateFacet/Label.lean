/-
# Labels

A range is shown to the user with a label for each side.  At day granularity a side is labelled
with its day in one of three forms; the ISO form pads the year to four digits, the others do not.
The label of the whole range joins those of its sides with phrases that the host supplies.
-/

import DateFacet.Instant.Written

namespace DateFacet

open Text (padded signedNumeral)

/-- How the day of a side is written. -/
inductive DayLabel
  /-- `2020-03-01` -/
  | iso
  /-- `01/03/2020` -/
  | dayMonthYear
  /-- `03/01/2020` -/
  | monthDayYear
  deriving DecidableEq

/-- The day of an instant in a form. -/
def DayLabel.chars (form : DayLabel) (t : Instant) : List Char :=
  match form with
  | .iso => t.dateChars
  | .dayMonthYear => padded 2 t.day ++ '/' :: padded 2 t.month ++ '/' :: signedNumeral t.year
  | .monthDayYear => padded 2 t.month ++ '/' :: padded 2 t.day ++ '/' :: signedNumeral t.year

/-- The day of an instant in a form. -/
def DayLabel.text (form : DayLabel) (t : Instant) : String := String.ofList (form.chars t)

/-- The year of an instant. -/
def yearLabel (t : Instant) : String := String.ofList (signedNumeral t.year)

/-- The phrases of the host's language around the labels of the sides. -/
structure Phrases where
  /-- Before the start, where both sides are there. -/
  start : String
  /-- Between the sides. -/
  stop : String
  /-- Before the start alone. -/
  startOnly : String
  /-- Before the stop alone. -/
  stopOnly : String
  deriving DecidableEq

/-- The English phrases. -/
def Phrases.english : Phrases := ⟨"from", "to", "from", "until"⟩

/-- The label of a range from the labels of its sides, of which an empty one is left out. -/
def Phrases.join (phrases : Phrases) (startLabel stopLabel : String) : String :=
  if startLabel ≠ "" then
    if stopLabel ≠ "" then
      phrases.start ++ " " ++ startLabel ++ " " ++ phrases.stop ++ " " ++ stopLabel
    else phrases.startOnly ++ " " ++ startLabel
  else if stopLabel ≠ "" then phrases.stopOnly ++ " " ++ stopLabel
  else ""

end DateFacet
