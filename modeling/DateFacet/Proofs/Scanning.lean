/-
# What is written is read

The scanners of `DateFacet.DateText.Scan` never go back, so each takes exactly the part that was
written as long as what follows cannot belong to it: after digits no digit may follow, and after a
sign, a fraction or the seconds none of their marks.  The statements quantify over what follows and
name that condition; put together from the innermost part outwards they give `scan_chars`.
-/

import DateFacet.DateText.Scan

namespace DateFacet

/-- A run of characters is taken off what it ends before. -/
theorem Text.takeWhile_dropWhile_append {pass : Char → Bool} {cs rest : List Char}
    (run : ∀ c ∈ cs, pass c = true) (stop : ∀ c ∈ rest.head?, pass c = false) :
    (cs ++ rest).takeWhile pass = cs ∧ (cs ++ rest).dropWhile pass = rest := by
  rw [List.takeWhile_append_of_pos run, List.dropWhile_append_of_pos run]
  cases rest with
  | nil => exact ⟨List.append_nil cs, rfl⟩
  | cons c rest =>
    have neg : ¬pass c = true := Bool.not_eq_true _ ▸ stop c rfl
    rw [List.takeWhile_cons_of_neg neg, List.dropWhile_cons_of_neg neg]
    exact ⟨List.append_nil cs, rfl⟩

/-- A run of characters is taken off the mark that ends it. -/
theorem Text.takeWhile_dropWhile_mark {pass : Char → Bool} {cs : List Char} {mark : Char}
    (run : ∀ c ∈ cs, pass c = true) (stop : pass mark = false) (rest : List Char) :
    (cs ++ mark :: rest).takeWhile pass = cs ∧
      (cs ++ mark :: rest).dropWhile pass = mark :: rest := by
  refine takeWhile_dropWhile_append run fun c mem => ?_
  rw [← Option.some.inj mem]
  exact stop

/-- The first mark splits characters in one way. -/
theorem Text.append_mark_inj {mark : Char} {cs ds rest others : List Char} (hcs : mark ∉ cs)
    (hds : mark ∉ ds) (h : cs ++ mark :: rest = ds ++ mark :: others) :
    cs = ds ∧ rest = others := by
  have stop : decide (mark ≠ mark) = false := decide_eq_false fun ne => ne rfl
  have front : ∀ es others : List Char, mark ∉ es →
      (es ++ mark :: others).takeWhile (· ≠ mark) = es := by
    intro es others notMem
    have run : ∀ c ∈ es, decide (c ≠ mark) = true :=
      fun c hc => decide_eq_true fun eq => notMem (eq ▸ hc)
    exact (takeWhile_dropWhile_mark run stop others).1
  obtain rfl : cs = ds := by rw [← front cs rest hcs, h, front ds others hds]
  exact ⟨rfl, (List.cons.inj (List.append_cancel_left h)).2⟩

/-- What goes on without a mark ends before the mark. -/
theorem Text.prefix_of_prefix_mark {mark : Char} {part cs rest : List Char}
    (h : part <+: cs ++ mark :: rest) (notMem : mark ∉ part) : part <+: cs := by
  obtain ⟨others, eq⟩ := h
  rcases List.append_eq_append_iff.1 eq with ⟨more, rfl, -⟩ | ⟨more, rfl, goesOn⟩
  · exact List.prefix_append part more
  · cases more with
    | nil => simp
    | cons c more =>
      obtain ⟨rfl, -⟩ := List.cons.inj goesOn
      exact absurd (List.mem_append_right cs List.mem_cons_self) notMem

namespace DateText

open Text (isDecimal)

variable {ds rest : List Char}

/-- What follows does not go on with digits. -/
def NoDigit (cs : List Char) : Prop := ∀ c ∈ cs.head?, isDecimal c = false

theorem noDigit_nil : NoDigit [] := nofun

/-- No digit comes where another character does. -/
theorem noDigit_cons {c : Char} (h : isDecimal c = false) (cs : List Char) : NoDigit (c :: cs) := by
  intro d hd
  obtain rfl := Option.some.inj hd
  exact h

/-- A digit is no mark. -/
theorem ne_of_isDecimal {c mark : Char} (digit : isDecimal c = true)
    (other : isDecimal mark = false) : c ≠ mark := by
  rintro rfl
  rw [digit] at other
  cases other

/-! ## Digits -/

/-- A run of digits is scanned up to the first other character. -/
theorem scanRun_append (h : IsRun ds) (stop : NoDigit rest) :
    scanRun (ds ++ rest) = some (ds, rest) := by
  obtain ⟨take, drop⟩ := Text.takeWhile_dropWhile_append h.2 stop
  rw [scanRun, take, drop, if_neg (by simpa using h.1)]

/-- A pair of digits is scanned in front of anything. -/
theorem scanPair_append (h : IsPair ds) (rest : List Char) :
    scanPair (ds ++ rest) = some (ds, rest) := by
  obtain ⟨length, digits⟩ := h
  match ds with
  | [a, b] => simp [scanPair, digits a (by simp), digits b (by simp)]

/-- A short number is scanned up to the first other character. -/
theorem scanShort_append (h : IsShort ds) (stop : NoDigit rest) :
    scanShort (ds ++ rest) = some (ds, rest) := by
  obtain ⟨⟨ne, digits⟩, length⟩ := h
  match ds, rest with
  | [a], [] => simp [scanShort, digits a (by simp)]
  | [a], b :: rest => simp [scanShort, digits a (by simp), stop b rfl]
  | [a, b], rest => simp [scanShort, digits a (by simp), digits b (by simp)]

/-! ## Signs, zones and times -/

/-- The sign before a year is scanned, and none is found where there is none. -/
theorem scanSign_append (sign : Option Sign) (h : IsRun ds) (rest : List Char) :
    scanSign (signChars sign ++ (ds ++ rest)) = (sign, ds ++ rest) := by
  match sign, ds with
  | some .plus, _ => rfl
  | some .minus, _ => rfl
  | none, c :: cs =>
    have digit := h.2 c List.mem_cons_self
    have plus : c ≠ '+' := ne_of_isDecimal digit (by decide)
    have minus : c ≠ '-' := ne_of_isDecimal digit (by decide)
    change scanSign (c :: (cs ++ rest)) = _
    unfold scanSign
    split <;> simp_all

/-- A written offset is scanned, with or without its colon. -/
theorem scanOffset_append (sign : Sign) {hour minute : List Char} (hhour : IsPair hour)
    (colon : Bool) (hminute : IsPair minute) :
    scanOffset sign (hour ++ ((if colon then [':'] else []) ++ minute)) =
      some (.offset sign hour colon minute) := by
  have last : scanPair minute = some (minute, []) := by
    simpa using scanPair_append hminute []
  cases colon with
  | true => simp [scanOffset, scanPair_append hhour, last]
  | false =>
    match minute with
    | a :: bs =>
      have noColon : a ≠ ':' :=
        ne_of_isDecimal (hminute.2 a List.mem_cons_self) (by decide)
      simp [scanOffset, scanPair_append hhour, last, noColon]

/-- The characters of a zone, or none. -/
def zoneChars (zone : Option Zone) : List Char := (zone.map Zone.chars).getD []

/-- The characters of a fraction, or none. -/
def fractionChars (fraction : Option (Char × List Char)) : List Char :=
  (fraction.map fun f => f.1 :: f.2).getD []

/-- The characters of the seconds, or none. -/
def secondsChars (seconds : Option Seconds) : List Char := (seconds.map Seconds.chars).getD []

/-- Seconds are a colon, their digits and their fraction. -/
theorem Seconds.chars_eq (s : Seconds) :
    s.chars = ':' :: (s.digits ++ fractionChars s.fraction) := by
  obtain ⟨digits, fraction⟩ := s
  cases fraction <;> rfl

/-- A time of day is its gap, hour and minute, seconds and zone. -/
theorem Clock.chars_eq (clock : Clock) : clock.chars =
    clock.gap :: (clock.hour ++ ':' :: (clock.minute ++
      (secondsChars clock.seconds ++ zoneChars clock.zone))) := by
  obtain ⟨gap, hour, minute, seconds, zone⟩ := clock
  cases seconds <;> cases zone <;> simp [Clock.chars, secondsChars, zoneChars]

/-- A written zone is scanned, and none is found where there is none. -/
theorem scanZone_zoneChars {zone : Option Zone} (h : ∀ z ∈ zone, z.Fits) :
    scanZone (zoneChars zone) = some zone := by
  match zone with
  | none => rfl
  | some (.universal mark) => rcases h _ rfl with rfl | rfl <;> rfl
  | some (.offset sign hour colon minute) =>
    obtain ⟨hhour, hminute⟩ := h _ rfl
    have offset := scanOffset_append sign hhour colon hminute
    cases sign <;> simp [zoneChars, Zone.chars, Sign.char, scanZone, offset]

/-- What may stand after a time of day: nothing that its digits, its fraction or its seconds could
go on with. -/
def EndsClock (cs : List Char) : Prop :=
  NoDigit cs ∧ ∀ c ∈ cs.head?, c ≠ '.' ∧ c ≠ ',' ∧ c ≠ ':'

/-- A zone ends the digits, the fraction and the seconds before it. -/
theorem endsClock_zoneChars {zone : Option Zone} (h : ∀ z ∈ zone, z.Fits) :
    EndsClock (zoneChars zone) := by
  have start : ∀ c ∈ (zoneChars zone).head?, c ∈ ['Z', 'z', '+', '-'] := by
    match zone with
    | none => exact nofun
    | some (.universal mark) => rcases h _ rfl with rfl | rfl <;> rintro c ⟨⟩ <;> simp
    | some (.offset sign ..) => rintro c ⟨⟩; cases sign <;> simp [Sign.char]
  have marks : ∀ c ∈ ['Z', 'z', '+', '-'],
      isDecimal c = false ∧ c ≠ '.' ∧ c ≠ ',' ∧ c ≠ ':' := by
    intro c hc
    simp only [List.mem_cons, List.not_mem_nil, or_false] at hc
    rcases hc with rfl | rfl | rfl | rfl <;> exact ⟨by decide, by decide, by decide, by decide⟩
  exact ⟨fun c hc => (marks c (start c hc)).1, fun c hc => (marks c (start c hc)).2⟩

/-- A written fraction is scanned, and none is found where there is none. -/
theorem scanFraction_append {fraction : Option (Char × List Char)}
    (h : ∀ f ∈ fraction, (f.1 = '.' ∨ f.1 = ',') ∧ IsRun f.2) (stop : EndsClock rest) :
    scanFraction (fractionChars fraction ++ rest) = some (fraction, rest) := by
  match fraction with
  | none =>
    have marks := stop.2
    change scanFraction rest = _
    unfold scanFraction
    split <;> simp_all
  | some (mark, digits) =>
    obtain ⟨hmark, run⟩ := h _ rfl
    rcases hmark with rfl | rfl <;> simp [fractionChars, scanFraction, scanRun_append run stop.1]

/-- Written seconds are scanned, and none are found where there are none. -/
theorem scanSeconds_append {seconds : Option Seconds} (h : ∀ s ∈ seconds, s.Fits)
    (stop : EndsClock rest) :
    scanSeconds (secondsChars seconds ++ rest) = some (seconds, rest) := by
  match seconds with
  | none =>
    have marks := stop.2
    change scanSeconds rest = _
    unfold scanSeconds
    split <;> simp_all
  | some s =>
    obtain ⟨pair, fits⟩ := h _ rfl
    simp [secondsChars, s.chars_eq, scanSeconds, scanPair_append pair,
      scanFraction_append fits stop]

/-- A written time of day is scanned behind its gap. -/
theorem scanClock_chars {clock : Clock} (h : clock.Fits) :
    ∃ cs, clock.chars = clock.gap :: cs ∧ scanClock clock.gap cs = some clock := by
  obtain ⟨-, hhour, hminute, hseconds, hzone⟩ := h
  refine ⟨_, clock.chars_eq, ?_⟩
  simp [scanClock, scanPair_append hhour, scanPair_append hminute,
    scanSeconds_append hseconds (endsClock_zoneChars hzone), scanZone_zoneChars hzone]

/-! ## Dates -/

/-- What is written after the year is scanned. -/
theorem scanDetail_chars {detail : Detail} (h : detail.Fits) :
    scanDetail detail.chars = some detail := by
  have dash : ∀ cs, NoDigit ('-' :: cs) := noDigit_cons (by decide)
  match detail with
  | .year => rfl
  | .month m =>
    have month := scanShort_append h noDigit_nil
    rw [List.append_nil] at month
    simp [Detail.chars, scanDetail, month]
  | .day m d =>
    have day := scanShort_append h.2 noDigit_nil
    rw [List.append_nil] at day
    simp [Detail.chars, scanDetail, scanShort_append h.1 (dash d), day]
  | .time m d clock =>
    obtain ⟨hmonth, hday, hclock⟩ := h
    obtain ⟨cs, hcs, clocked⟩ := scanClock_chars hclock
    have gap : NoDigit (clock.gap :: cs) := by
      rcases hclock.1 with h | h <;> rw [h] <;> exact noDigit_cons (by decide) cs
    rw [Detail.chars, hcs]
    rcases hclock.1 with h | h <;> rw [h] at clocked gap ⊢ <;>
      simp [scanDetail, scanShort_append hmonth (dash _), scanShort_append hday gap, clocked]

/-- What is written after the year does not begin with a digit. -/
theorem noDigit_detailChars {detail : Detail} : NoDigit detail.chars := by
  cases detail with
  | year => exact noDigit_nil
  | _ => exact noDigit_cons (by decide) _

/-- A form that is written with dashes is scanned. -/
theorem scanDashes_chars {sign : Option Sign} {year : List Char} {detail : Detail}
    (h : (Form.dashes sign year detail).Fits) :
    scanDashes (Form.dashes sign year detail).chars = some (.dashes sign year detail) := by
  obtain ⟨hyear, hdetail⟩ := h
  simp [Form.chars, scanDashes, scanSign_append sign hyear,
    scanRun_append hyear noDigit_detailChars, scanDetail_chars hdetail]

/-- A short number is scanned up to its slash. -/
theorem scanBeforeSlash_append (h : IsShort ds) (rest : List Char) :
    scanBeforeSlash (ds ++ '/' :: rest) = some (ds, rest) := by
  have slash : NoDigit ('/' :: rest) := noDigit_cons (by decide) rest
  simp [scanBeforeSlash, scanShort_append h slash]

/-- A date with slashes is none with dashes: its first number ends at a slash. -/
theorem scanDashes_slash (h : IsShort ds) (rest : List Char) :
    scanDashes (ds ++ '/' :: rest) = none := by
  have sign := scanSign_append none h.1 ('/' :: rest)
  have run := scanRun_append h.1 (noDigit_cons (by decide : isDecimal '/' = false) rest)
  change scanSign (ds ++ '/' :: rest) = _ at sign
  simp [scanDashes, sign, run, scanDetail]

/-- A form that is written with slashes is scanned. -/
theorem scanSlashes_chars {first second year : List Char} {sign : Option Sign}
    (h : (Form.slashes first second sign year).Fits) :
    scanSlashes (Form.slashes first second sign year).chars =
      some (.slashes first second sign year) := by
  obtain ⟨hfirst, hsecond, hyear⟩ := h
  have last := scanRun_append hyear noDigit_nil
  have signed := scanSign_append sign hyear []
  rw [List.append_nil] at last signed
  simp [Form.chars, scanSlashes, scanBeforeSlash_append hfirst, scanBeforeSlash_append hsecond,
    signed, last]

/-- **What is written is read.**  The characters of a form are read as that form. -/
theorem scan_chars {form : Form} (h : form.Fits) : scan form.chars = some form := by
  cases form with
  | dashes sign year detail => rw [scan, scanDashes_chars h]; rfl
  | slashes first second sign year =>
    have dashes : scanDashes (Form.slashes first second sign year).chars = none := by
      simpa [Form.chars] using scanDashes_slash h.1 (second ++ '/' :: (signChars sign ++ year))
    rw [scan, dashes, scanSlashes_chars h]
    rfl

end DateText
end DateFacet
