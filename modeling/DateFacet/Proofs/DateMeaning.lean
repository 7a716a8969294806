/-
# Which texts name which instant

A form says a local time and may say an offset.  What it says is put here as a condition on the
instant, without the order in which the parts are read and checked:

| part | what it says |
| --- | --- |
| the year | the number of its digits, with the sign |
| month, day | the numbers of their digits, one where they are missing |
| time of day | the numbers of its digits, zero where they are missing; a fraction says nothing |
| numbers around a slash | day and month, in the order that the reader is told |
| zone | local time is so many minutes ahead of universal time, none without an offset |

A form denotes the instant that lies as many minutes before its local time, if the digits of its
numbers are ASCII and the offset is less than a day (`Form.Denotes`).  The reader gives an instant
for a text exactly if the text is a form between blanks that denotes this instant
(`Instant.ofText_iff_denotes`).
-/

import DateFacet.DateText.Meaning
import DateFacet.Proofs.FormReading
import DateFacet.Proofs.Outcome
import DateFacet.Proofs.Shifting

namespace DateFacet
namespace DateText

open Instant (Fault Part maxYear)
open Outcome (bind_eq_ok_iff)
open Text (digitsValue)

/-! ## What a form says -/

/-- All digits of the fields are ASCII. -/
def AllAscii (fields : List (List Char)) : Prop :=
  ∀ field ∈ fields, ∀ c ∈ field, c.isDigit = true

/-- The digits of a zone. -/
def Zone.fields : Zone → List (List Char)
  | .universal _ => []
  | .offset _ hour _ minute => [hour, minute]

/-- The digits after the year that stand for numbers, up to the zone.  Those of a fraction do
not. -/
def Detail.fields : Detail → List (List Char)
  | .year => []
  | .month m => [m]
  | .day m d => [m, d]
  | .time m d clock => [m, d, clock.hour, clock.minute] ++ (clock.seconds.map Seconds.digits).toList

/-- The zone that a form gives. -/
def Form.zone : Form → Option Zone
  | .dashes _ _ detail => detail.zone
  | .slashes .. => none

/-- The digits of a form that stand for numbers. -/
def Form.fields : Form → List (List Char)
  | .dashes _ year detail => year :: detail.fields ++ (detail.zone.map Zone.fields).getD []
  | .slashes first second _ year => [first, second, year]

/-- The number of signed digits. -/
def signedValue (sign : Option Sign) (digits : List Char) : Int :=
  (sign.getD .plus).apply (digitsValue digits)

/-- An instant has the month, the day and the time of day that the characters after a year say. -/
def Detail.Says (L : Instant) : Detail → Prop
  | .year => L.month = 1 ∧ L.day = 1 ∧ L.secondOfDay = 0
  | .month m => L.month = digitsValue m ∧ L.day = 1 ∧ L.secondOfDay = 0
  | .day m d => L.month = digitsValue m ∧ L.day = digitsValue d ∧ L.secondOfDay = 0
  | .time m d clock => L.month = digitsValue m ∧ L.day = digitsValue d ∧
      L.hour = digitsValue clock.hour ∧ L.minute = digitsValue clock.minute ∧
      L.second = (clock.seconds.map fun s => digitsValue s.digits).getD 0

/-- An instant is the local time that a form says. -/
def Form.Says (order : SlashOrder) (L : Instant) : Form → Prop
  | .dashes sign year detail => L.year = signedValue sign year ∧ detail.Says L
  | .slashes first second sign year => L.year = signedValue sign year ∧ L.secondOfDay = 0 ∧
      match order with
      | .dayFirst => L.day = digitsValue first ∧ L.month = digitsValue second
      | .monthFirst => L.month = digitsValue first ∧ L.day = digitsValue second

/-- The minutes by which a zone is ahead of universal time. -/
def Zone.ahead : Zone → Int
  | .universal _ => 0
  | .offset sign hour _ minute => sign.apply (digitsValue hour * 60 + digitsValue minute)

/-- The hours and minutes of a zone are those of a clock. -/
def Zone.InRange : Zone → Prop
  | .universal _ => True
  | .offset _ hour _ minute => digitsValue hour ≤ 23 ∧ digitsValue minute ≤ 59

/-- The minutes by which the local time of a form is ahead of universal time. -/
def Form.ahead (form : Form) : Int := (form.zone.map Zone.ahead).getD 0

/-- **A form denotes an instant**: its numbers are ASCII, its offset is one of a clock, and the
instant lies before its local time by the offset. -/
structure Form.Denotes (order : SlashOrder) (form : Form) (t : Instant) : Prop where
  ascii : AllAscii form.fields
  inRange : ∀ zone ∈ form.zone, zone.InRange
  shifted : ∃ L, form.Says order L ∧ t.position = L.position - 60 * form.ahead

/-! ## The parts of a form -/

/-- Fields are ASCII digits if the first one is and the others are. -/
theorem allAscii_cons {field : List Char} {fields : List (List Char)} :
    AllAscii (field :: fields) ↔ (∀ c ∈ field, c.isDigit = true) ∧ AllAscii fields :=
  List.forall_mem_cons

/-- Two lists of fields are ASCII digits together if each of them is. -/
theorem allAscii_append {fields others : List (List Char)} :
    AllAscii (fields ++ others) ↔ AllAscii fields ∧ AllAscii others :=
  List.forall_mem_append

theorem allAscii_nil : AllAscii [] := nofun

/-- One field is ASCII digits if its characters are. -/
theorem allAscii_singleton {field : List Char} :
    AllAscii [field] ↔ ∀ c ∈ field, c.isDigit = true :=
  List.forall_mem_singleton

/-- A part has a number if its digits are ASCII, and the number is their value. -/
theorem partNumber_eq_ok_iff {part : Part} {digits : List Char} {n : Nat} :
    partNumber part digits = .ok n ↔ (∀ c ∈ digits, c.isDigit = true) ∧ n = digitsValue digits := by
  rw [← List.all_eq_true, partNumber]
  split
  · next ascii => simp [ascii, eq_comm]
  · next other => simp [other]

/-- A number that is read goes on to what needs it. -/
theorem partNumber_bind_eq_ok_iff {part : Part} {digits : List Char} {α : Type}
    {f : Nat → Except Fault α} {a : α} : (partNumber part digits >>= f) = .ok a ↔
      (∀ c ∈ digits, c.isDigit = true) ∧ f (digitsValue digits) = .ok a := by
  simp only [bind_eq_ok_iff, partNumber_eq_ok_iff, and_assoc, exists_and_left, exists_eq_left]

/-- What goes on with the second goes on with its value, or with zero if it is left out. -/
theorem secondNumber_bind_eq_ok_iff {seconds : Option Seconds} {α : Type}
    {f : Nat → Except Fault α} {a : α} : (secondNumber seconds >>= f) = .ok a ↔
      AllAscii (seconds.map Seconds.digits).toList ∧
        f ((seconds.map fun s => digitsValue s.digits).getD 0) = .ok a := by
  cases seconds with
  | none => exact (and_iff_right allAscii_nil).symm
  | some s => exact partNumber_bind_eq_ok_iff.trans (and_congr_left' allAscii_singleton.symm)

/-- A sign does not change the digits of a year. -/
theorem natAbs_signedValue (sign : Option Sign) (digits : List Char) :
    (signedValue sign digits).natAbs = digitsValue digits := by
  rcases sign with _ | _ | _ <;> simp [signedValue, Sign.apply]

/-- What goes on with the year goes on with its value, which is within the limit. -/
theorem yearNumber_bind_eq_ok_iff {sign : Option Sign} {digits : List Char} {α : Type}
    {f : Int → Except Fault α} {a : α} : (yearNumber sign digits >>= f) = .ok a ↔
      (∀ c ∈ digits, c.isDigit = true) ∧ (signedValue sign digits).natAbs ≤ maxYear ∧
        f (signedValue sign digits) = .ok a := by
  rw [← List.all_eq_true, natAbs_signedValue, bind_eq_ok_iff, yearNumber]
  split
  · next accepted => simp [accepted, signedValue]
  · next refused =>
    constructor
    · nofun
    · rintro ⟨ascii, small, -⟩
      exact absurd ⟨ascii, small⟩ refused

/-- The field check gives the instant with these fields. -/
theorem ofFields_eq_ok_iff_eq {year : Int} {month day hour minute second : Nat} {t : Instant} :
    Instant.ofFields year month day hour minute second = .ok t ↔ t.year = year ∧ t.month = month ∧
      t.day = day ∧ t.hour = hour ∧ t.minute = minute ∧ t.second = second := by
  refine ⟨fun h => (Instant.ofFields_eq_ok_iff.1 h).2, ?_⟩
  rintro ⟨rfl, rfl, rfl, rfl, rfl, rfl⟩
  exact t.ofFields_self

/-- A date alone is the midnight of its day. -/
theorem ofDate_eq_ok_iff {year : Int} {month day : Nat} {t : Instant} :
    Instant.ofDate year month day = .ok t ↔ t.year = year ∧ t.month = month ∧ t.day = day ∧
      t.secondOfDay = 0 := by
  rw [Instant.ofDate, ofFields_eq_ok_iff_eq, Instant.secondOfDay]
  omega

/-- A detail gives the local time that it tells, if its digits are ASCII. -/
theorem localTime_eq_ok_iff {detail : Detail} {year : Int} {L : Instant} :
    detail.localTime year = .ok L ↔ AllAscii detail.fields ∧ L.year = year ∧ detail.Says L := by
  cases detail with
  | year => exact ofDate_eq_ok_iff.trans (and_iff_right allAscii_nil).symm
  | month m =>
    rw [Detail.localTime, partNumber_bind_eq_ok_iff, ofDate_eq_ok_iff, Detail.fields,
      allAscii_singleton]
    rfl
  | day m d =>
    simp only [Detail.localTime, partNumber_bind_eq_ok_iff, ofDate_eq_ok_iff, Detail.fields,
      allAscii_cons, allAscii_nil, Detail.Says, and_assoc, and_true]
  | time m d clock =>
    simp only [Detail.localTime, partNumber_bind_eq_ok_iff, secondNumber_bind_eq_ok_iff,
      ofFields_eq_ok_iff_eq, Detail.fields, Detail.Says, allAscii_append, allAscii_cons,
      allAscii_nil, and_assoc, true_and]

/-- The date around the slashes, in the order that the reader is told. -/
theorem slashDate_eq_ok_iff {order : SlashOrder} {first second year : List Char}
    {sign : Option Sign} {L : Instant} :
    (match order with
      | .dayFirst =>
        Instant.ofDate (signedValue sign year) (digitsValue second) (digitsValue first)
      | .monthFirst =>
        Instant.ofDate (signedValue sign year) (digitsValue first) (digitsValue second)) = .ok L ↔
      (Form.slashes first second sign year).Says order L := by
  cases order with
  | dayFirst =>
    simp only [ofDate_eq_ok_iff, Form.Says]
    tauto
  | monthFirst =>
    simp only [ofDate_eq_ok_iff, Form.Says]
    tauto

/-- A zone has an offset if its digits are ASCII and the offset is less than a day. -/
theorem minutesAhead_eq_ok_iff {zone : Zone} {minutes : Int} : zone.minutesAhead = .ok minutes ↔
    AllAscii zone.fields ∧ zone.InRange ∧ minutes = zone.ahead := by
  cases zone with
  | universal mark =>
    simp [Zone.minutesAhead, Zone.fields, Zone.InRange, Zone.ahead, allAscii_nil, eq_comm]
  | offset sign hour colon minute =>
    simp only [Zone.minutesAhead, partNumber_bind_eq_ok_iff, Zone.fields, Zone.InRange, Zone.ahead,
      allAscii_cons, allAscii_nil, and_assoc, true_and]
    refine and_congr_right' (and_congr_right' ?_)
    split
    · next inRange => simp [inRange, eq_comm]
    · next outside =>
      constructor
      · intro h
        cases h
      · rintro ⟨hhour, hminute, -⟩
        exact absurd ⟨hhour, hminute⟩ outside

/-- Universal time lies before local time by the offset, if the offset is one of a clock. -/
theorem universalTime_eq_ok_iff {L t : Instant} {zone : Option Zone} :
    universalTime L zone = .ok t ↔ AllAscii ((zone.map Zone.fields).getD []) ∧
      (∀ z ∈ zone, z.InRange) ∧ t.position = L.position - 60 * (zone.map Zone.ahead).getD 0 := by
  have same : Except.ok L = (Except.ok t : Except Fault Instant) ↔
      t.position = L.position - 60 * 0 := by
    rw [Except.ok.injEq, Instant.position_eq_sub_zero]
  match zone with
  | none => simpa [universalTime, allAscii_nil] using same
  | some (.universal mark) =>
    simpa [universalTime, Zone.fields, Zone.InRange, Zone.ahead, allAscii_nil] using same
  | some (.offset sign hour colon minute) =>
    simp only [universalTime, bind_eq_ok_iff, minutesAhead_eq_ok_iff, Instant.shift_eq_ok_iff,
      and_assoc, exists_and_left, exists_eq_left, Option.map_some, Option.getD_some,
      Option.mem_some_iff, forall_eq']
    refine and_congr_right' (and_congr_right' ?_)
    rw [Int.mul_neg, Int.sub_eq_add_neg]

/-- **The reader gives the instant that the form denotes.** -/
theorem Form.instant_eq_ok_iff {order : SlashOrder} {form : Form} {t : Instant} :
    form.instant order = .ok t ↔ form.Denotes order t := by
  match form with
  | .dashes sign year detail =>
    rw [Form.instant, yearNumber_bind_eq_ok_iff]
    simp only [bind_eq_ok_iff, localTime_eq_ok_iff, universalTime_eq_ok_iff]
    constructor
    · rintro ⟨asciiYear, -, L, ⟨ascii, hyear, said⟩, asciiZone, inRange, shifted⟩
      exact ⟨allAscii_append.2 ⟨allAscii_cons.2 ⟨asciiYear, ascii⟩, asciiZone⟩, inRange, L,
        ⟨hyear, said⟩, shifted⟩
    · rintro ⟨ascii, inRange, L, ⟨hyear, said⟩, shifted⟩
      obtain ⟨ascii, asciiZone⟩ := allAscii_append.1 ascii
      obtain ⟨asciiYear, ascii⟩ := allAscii_cons.1 ascii
      exact ⟨asciiYear, hyear ▸ L.year_le, L, ⟨ascii, hyear, said⟩, asciiZone, inRange, shifted⟩
  | .slashes first second sign year =>
    -- A date with slashes has no zone, so its local time is universal time.
    rw [Form.instant, yearNumber_bind_eq_ok_iff]
    simp only [partNumber_bind_eq_ok_iff]
    constructor
    · rintro ⟨asciiYear, -, asciiFirst, asciiSecond, h⟩
      exact ⟨allAscii_cons.2 ⟨asciiFirst, allAscii_cons.2 ⟨asciiSecond,
        allAscii_singleton.2 asciiYear⟩⟩, nofun, t, slashDate_eq_ok_iff.1 h,
        Instant.position_eq_sub_zero.2 rfl⟩
    · rintro ⟨ascii, -, L, said, shifted⟩
      obtain rfl := Instant.position_eq_sub_zero.1 shifted
      obtain ⟨asciiFirst, ascii⟩ := allAscii_cons.1 ascii
      obtain ⟨asciiSecond, ascii⟩ := allAscii_cons.1 ascii
      exact ⟨allAscii_singleton.1 ascii, said.1 ▸ L.year_le, asciiFirst, asciiSecond,
        slashDate_eq_ok_iff.2 said⟩

end DateText

namespace Instant

open DateText (Form)

variable {order : SlashOrder} {text : String} {t : Instant}

/-- **A text names an instant exactly if a form stands in it that denotes the instant.**  Left of
the equivalence is the reader, which goes through the characters once and checks part after part; on
the right are the grammar, with nothing else than blanks around a form, and its meaning. -/
theorem ofText_iff_denotes : ofText order text = .ok t ↔
    ∃ form : Form, form.StandsIn text ∧ form.Denotes order t := by
  constructor
  · intro h
    obtain ⟨form, stands⟩ := exists_standsIn_of_ofText h
    rw [ofText_eq_instant stands] at h
    exact ⟨form, stands, Form.instant_eq_ok_iff.1 h⟩
  · rintro ⟨form, stands, denotes⟩
    rw [ofText_eq_instant stands]
    exact Form.instant_eq_ok_iff.2 denotes

/-- Digits of another script may stand in a fraction, but in no number. -/
example : isText .dayFirst "-7-3-1 01:30:00,٣+0200" = true ∧ isText .dayFirst "٢٠٢٠" = false := by
  decide +kernel

end Instant
end DateFacet
