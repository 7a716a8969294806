/-
# How an instant is written

`YYYY-MM-DDTHH:MM:SSZ`: the year has at least four digits and as many more as it needs, one
minus sign stands before a negative year, and the other fields have two digits.  No character other
than a digit or one of four marks is written (`notMem_chars`).
-/

import DateFacet.Instant.Basic

namespace DateFacet
namespace Instant

open Text (padded numeral)

/-- The sign and the digits of the year: a minus sign or nothing, and at least four digits. -/
def yearChars (t : Instant) : List Char :=
  (if t.isNegative then ['-'] else []) ++ padded 4 t.year.natAbs

/-- The day of the instant as `YYYY-MM-DD`. -/
def dateChars (t : Instant) : List Char :=
  t.yearChars ++ '-' :: padded 2 t.month ++ '-' :: padded 2 t.day

/-- The time of the day as `HH:MM:SS`. -/
def timeChars (t : Instant) : List Char :=
  padded 2 t.hour ++ ':' :: padded 2 t.minute ++ ':' :: padded 2 t.second

/-- The characters of the written instant. -/
def chars (t : Instant) : List Char :=
  t.dateChars ++ 'T' :: t.timeChars ++ ['Z']

/-- The written instant. -/
def text (t : Instant) : String := String.ofList t.chars

/-- The text of an instant has the written characters. -/
@[simp] theorem toList_text (t : Instant) : t.text.toList = t.chars := String.toList_ofList

instance : ToString Instant := ⟨text⟩

/-- The day of an instant is written with digits and dashes. -/
theorem notMem_dateChars (t : Instant) {c : Char} (digit : c.isDigit = false) (dash : c ≠ '-') :
    c ∉ t.dateChars := by
  have sign : c ∉ if t.isNegative then ['-'] else [] := by
    split <;> simp [dash]
  simp [dateChars, yearChars, sign, dash, Text.notMem_padded digit]

/-- An instant is written with digits and four marks. -/
theorem notMem_chars (t : Instant) {c : Char} (digit : c.isDigit = false)
    (mark : c ∉ ['-', ':', 'T', 'Z']) : c ∉ t.chars := by
  have date := t.notMem_dateChars digit fun dash => mark (dash ▸ List.mem_cons_self)
  simp_all [chars, timeChars, Text.notMem_padded digit]

end Instant
end DateFacet
