/-
# Written instants are read back

A canonical text is `-?YYYY-MM-DDTHH:MM:SSZ`, with rules for the digits of the year that leave one
way to write each year.  `Canonical` keeps the digits of such a text with the proofs of the rules.

Reading one is the field check on the values of its digits (`Canonical.ofText_text`).  Writing
chooses digits with the right values, so a written instant is read back (`Instant.ofText_text`);
and as digits that fill their places are determined by their values, what is read is written with
the same digits again (`Canonical.text_of_ofText`).
-/

import DateFacet.Proofs.FormReading
import DateFacet.Proofs.Numeral

namespace DateFacet
namespace DateText

open Instant (Part maxYear)
open Text (digitsValue padded Fills)

/-- The digits of a text `-?YYYY-MM-DDTHH:MM:SSZ`, all of them ASCII.  The year has four digits, or
more without a leading zero, and is not `-0000`. -/
structure Canonical where
  negative : Bool
  year : List Char
  month : List Char
  day : List Char
  hour : List Char
  minute : List Char
  second : List Char
  digits : ∀ field ∈ [year, month, day, hour, minute, second], ∀ c ∈ field, c.isDigit = true
  pairs : ∀ field ∈ [month, day, hour, minute, second], field.length = 2
  fills : Fills 4 year
  notMinusZero : ¬ (negative = true ∧ year = ['0', '0', '0', '0'])

namespace Canonical

/-- The characters of the text. -/
def chars (c : Canonical) : List Char :=
  (if c.negative then ['-'] else []) ++ c.year ++ '-' :: c.month ++ '-' :: c.day ++
    'T' :: c.hour ++ ':' :: c.minute ++ ':' :: c.second ++ ['Z']

/-- The text. -/
def text (c : Canonical) : String := String.ofList c.chars

/-- The sign of the year. -/
def sign (c : Canonical) : Option Sign := if c.negative then some .minus else none

/-- The form of the text. -/
def form (c : Canonical) : Form :=
  .dashes c.sign c.year (.time c.month c.day
    ⟨'T', c.hour, c.minute, some ⟨c.second, none⟩, some (.universal 'Z')⟩)

/-- The form of a text with the same digits, but with a fraction of a second and another zone. -/
def zoned (c : Canonical) (fraction : Option (Char × List Char)) (zone : Option Zone) : Form :=
  .dashes c.sign c.year (.time c.month c.day
    ⟨'T', c.hour, c.minute, some ⟨c.second, fraction⟩, zone⟩)

/-- The form has the characters of the text. -/
theorem form_chars (c : Canonical) : c.form.chars = c.chars := by
  cases h : c.negative <;>
    simp [form, chars, sign, h, Form.chars, signChars, Sign.char, Detail.chars, Clock.chars,
      Seconds.chars, Zone.chars]

/-- The number of the year. -/
def yearValue (c : Canonical) : Int :=
  if c.negative then -digitsValue c.year else digitsValue c.year

/-- A field after the year is two digits. -/
theorem isPair (c : Canonical) {field : List Char}
    (h : field ∈ [c.month, c.day, c.hour, c.minute, c.second]) : IsPair field :=
  ⟨c.pairs field h, fun d hd =>
    Text.isDecimal_of_isDigit (c.digits field (List.mem_cons_of_mem _ h) d hd)⟩

/-- A field after the year is one of at most two digits. -/
theorem isShort (c : Canonical) {field : List Char}
    (h : field ∈ [c.month, c.day, c.hour, c.minute, c.second]) : IsShort field := by
  obtain ⟨length, digits⟩ := c.isPair h
  exact ⟨⟨List.ne_nil_of_length_pos (by omega), digits⟩, by omega⟩

/-- The year is a run of digits. -/
theorem isRun_year (c : Canonical) : IsRun c.year := by
  refine ⟨List.ne_nil_of_length_pos ?_, fun d hd => ?_⟩
  · rcases c.fills with length | ⟨length, -⟩ <;> omega
  · exact Text.isDecimal_of_isDigit (c.digits c.year (by simp) d hd)

/-- With a fraction and a zone that fit, the form fits. -/
theorem zoned_fits (c : Canonical) {fraction : Option (Char × List Char)} {zone : Option Zone}
    (hfraction : ∀ f ∈ fraction, (f.1 = '.' ∨ f.1 = ',') ∧ IsRun f.2)
    (hzone : ∀ z ∈ zone, z.Fits) : (c.zoned fraction zone).Fits := by
  refine ⟨c.isRun_year, c.isShort (by simp), c.isShort (by simp), .inl rfl, c.isPair (by simp),
    c.isPair (by simp), fun s hs => ?_, hzone⟩
  obtain rfl := Option.some.inj hs
  exact ⟨c.isPair (by simp), hfraction⟩

/-- The form of a canonical text fits. -/
theorem form_fits (c : Canonical) : c.form.Fits :=
  c.zoned_fits nofun fun z hz => by
    obtain rfl := Option.some.inj hz
    exact .inl rfl

/-- A field after the year has the number that its digits spell. -/
theorem partNumber_field (c : Canonical) (part : Part) {field : List Char}
    (h : field ∈ [c.month, c.day, c.hour, c.minute, c.second]) :
    partNumber part field = .ok (digitsValue field) := by
  rw [partNumber, if_pos]
  exact List.all_eq_true.2 (c.digits field (List.mem_cons_of_mem _ h))

/-- The year has its value, unless that is beyond the limit. -/
theorem yearNumber_year (c : Canonical) :
    yearNumber c.sign c.year = if digitsValue c.year ≤ maxYear then .ok c.yearValue
      else .error (.yearText (String.ofList c.year)) := by
  have digits : c.year.all Char.isDigit = true := List.all_eq_true.2 (c.digits c.year (by simp))
  cases h : c.negative <;> simp [yearNumber, digits, sign, yearValue, h, Sign.apply]

/-- **The meaning of a canonical text** is the field check on the values of its digits, once the
year is not too large. -/
theorem ofText_text (order : SlashOrder) (c : Canonical) :
    Instant.ofText order c.text =
      if digitsValue c.year ≤ maxYear then
        Instant.ofFields c.yearValue (digitsValue c.month) (digitsValue c.day)
          (digitsValue c.hour) (digitsValue c.minute) (digitsValue c.second)
      else .error (.yearText (String.ofList c.year)) := by
  have stands : c.form.StandsIn c.text := by
    rw [text, ← c.form_chars]
    exact Form.standsIn_text c.form_fits
  rw [Instant.ofText_eq_instant stands]
  simp only [form, Form.instant, c.yearNumber_year]
  split
  · simp only [Detail.localTime, c.partNumber_field, List.mem_cons, true_or, or_true, secondNumber,
      Detail.zone, universalTime]
    change (Instant.ofFields _ _ _ _ _ _ >>= pure) = _
    rw [bind_pure]
  · rfl

/-- The digits of the year are its value, padded to four places. -/
theorem padded_year (c : Canonical) : padded 4 (digitsValue c.year) = c.year :=
  Text.padded_digitsValue (by decide) (c.digits c.year (by simp)) c.fills

/-- The digits of a field are its value, padded to two places. -/
theorem padded_field (c : Canonical) {field : List Char}
    (h : field ∈ [c.month, c.day, c.hour, c.minute, c.second]) :
    padded 2 (digitsValue field) = field :=
  Text.padded_digitsValue (by decide) (c.digits field (List.mem_cons_of_mem _ h))
    (.inl (c.pairs field h))

/-- Only a year that is not zero has a minus sign. -/
theorem yearValue_lt_zero (c : Canonical) : c.yearValue < 0 ↔ c.negative = true := by
  have notZero : c.negative = true → digitsValue c.year ≠ 0 := by
    intro negative zero
    have year := c.padded_year
    rw [zero] at year
    exact c.notMinusZero ⟨negative, year.symm⟩
  unfold yearValue
  split
  · next negative =>
    have := notZero negative
    exact iff_of_true (by omega) negative
  · next positive => exact iff_of_false (by omega) positive

/-- The year without its sign is the number that its digits spell. -/
theorem natAbs_yearValue (c : Canonical) : c.yearValue.natAbs = digitsValue c.year := by
  unfold yearValue
  split <;> omega

/-- **A canonical text is the one of the instant that it names.** -/
theorem text_of_ofText {order : SlashOrder} {c : Canonical} {t : Instant}
    (h : Instant.ofText order c.text = .ok t) : t.text = c.text := by
  rw [ofText_text] at h
  split at h
  · obtain ⟨-, year, month, day, hour, minute, second⟩ := Instant.ofFields_eq_ok_iff.1 h
    have negative : t.isNegative = c.negative := by
      rw [Instant.isNegative, year, Bool.eq_iff_iff, decide_eq_true_iff, c.yearValue_lt_zero]
    rw [Instant.text, text]
    congr 1
    simp only [Instant.chars, Instant.dateChars, Instant.yearChars, Instant.timeChars, negative,
      year, month, day, hour, minute, second, c.natAbs_yearValue, c.padded_year, c.padded_field,
      List.mem_cons, true_or, or_true, chars, List.append_assoc, List.cons_append]
  · cases h

end Canonical
end DateText

namespace Instant

open Text (padded digitsValue)
open DateText (Canonical)

/-- The canonical text of an instant. -/
def canonical (t : Instant) : Canonical where
  negative := t.isNegative
  year := padded 4 t.year.natAbs
  month := padded 2 t.month
  day := padded 2 t.day
  hour := padded 2 t.hour
  minute := padded 2 t.minute
  second := padded 2 t.second
  digits := by
    intro field h c hc
    obtain ⟨width, n, rfl⟩ : ∃ width n, field = padded width n := by
      simp only [List.mem_cons, List.not_mem_nil, or_false] at h
      rcases h with rfl | rfl | rfl | rfl | rfl | rfl <;> exact ⟨_, _, rfl⟩
    exact Text.isDigit_of_mem_padded hc
  pairs := by
    intro field h
    have lastDay := Calendar.daysInMonth_le t.year t.month
    obtain ⟨-, hmonth, hday, hhour, hminute, hsecond⟩ := t.isReal
    obtain ⟨n, hn, rfl⟩ : ∃ n < 100, field = padded 2 n := by
      simp only [List.mem_cons, List.not_mem_nil, or_false] at h
      rcases h with rfl | rfl | rfl | rfl | rfl <;> exact ⟨_, by omega, rfl⟩
    exact Text.length_padded_of_lt (by decide) hn
  fills := Text.fills_padded (by decide) _
  notMinusZero := by
    rintro ⟨negative, zero⟩
    have value := Text.digitsValue_padded 4 t.year.natAbs
    rw [zero] at value
    change 0 = _ at value
    have := of_decide_eq_true negative
    omega

/-- The canonical text of an instant is the written instant. -/
@[simp] theorem text_canonical (t : Instant) : t.canonical.text = t.text := by
  rw [Instant.text, Canonical.text]
  congr 1
  simp [Canonical.chars, canonical, chars, dateChars, yearChars, timeChars]
  rfl

/-- **A written instant is read back**, in either order of dates with slashes. -/
@[simp] theorem ofText_text (order : SlashOrder) (t : Instant) : ofText order t.text = .ok t := by
  have year : t.canonical.yearValue = t.year := by
    have negative : t.isNegative = decide (t.year < 0) := rfl
    simp only [Canonical.yearValue, canonical, Text.digitsValue_padded, negative,
      decide_eq_true_iff]
    split <;> omega
  have value : digitsValue t.canonical.year = t.year.natAbs := Text.digitsValue_padded 4 _
  rw [← t.text_canonical, Canonical.ofText_text, value, if_pos t.year_le, year]
  simp only [canonical, Text.digitsValue_padded]
  exact t.ofFields_self

/-- **Writing and reading are inverse to each other.**  A written instant is read back in either
order of dates with slashes, and a canonical text names an instant only if it is the text of that
instant. -/
theorem text_roundtrip (order : SlashOrder) :
    (∀ t : Instant, ofText order t.text = .ok t) ∧
      ∀ (c : Canonical) (t : Instant), ofText order c.text = .ok t ↔ t.text = c.text :=
  ⟨ofText_text order, fun c t => ⟨Canonical.text_of_ofText, fun h => by rw [← h, ofText_text]⟩⟩

end Instant
end DateFacet
