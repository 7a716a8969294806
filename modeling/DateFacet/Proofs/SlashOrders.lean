/-
# The two orders of dates with slashes

The order that a reader is told matters in one place, where the two numbers around a slash become a
day and a month.  So the other order reads a date with the two numbers exchanged to the same result,
and to the same failure if the year or the calendar refuses it.

A date with dashes has digits and a few marks in it, but no slash (`slash_notMem_dashes`), so a text
without a slash is read, or refused, in the same way under both orders.  A text with a slash that
both orders accept names two instants, with the day of the one for the month of the other.
-/

import DateFacet.Proofs.DateMeaning

namespace DateFacet
namespace DateText

open Text (isDecimal)

/-! ## Where a slash stands -/

/-- There is no slash among digits. -/
theorem slash_notMem_digits {ds : List Char} (h : ∀ c ∈ ds, isDecimal c = true) : '/' ∉ ds := by
  intro mem
  exact ne_of_isDecimal (h '/' mem) (by decide) rfl

theorem slash_notMem_signChars (sign : Option Sign) : '/' ∉ signChars sign := by
  rcases sign with _ | _ | _ <;> decide

/-- There is no slash in a zone. -/
theorem slash_notMem_zoneChars {zone : Option Zone} (h : ∀ z ∈ zone, z.Fits) :
    '/' ∉ zoneChars zone := by
  match zone with
  | none => exact List.not_mem_nil
  | some (.universal mark) => rcases h _ rfl with rfl | rfl <;> decide
  | some (.offset sign hour colon minute) =>
    obtain ⟨hhour, hminute⟩ := h _ rfl
    have first := slash_notMem_digits hhour.2
    have last := slash_notMem_digits hminute.2
    cases sign <;> cases colon <;> simp [zoneChars, Zone.chars, Sign.char, first, last]

/-- There is no slash in seconds with their fraction. -/
theorem slash_notMem_secondsChars {seconds : Option Seconds} (h : ∀ s ∈ seconds, s.Fits) :
    '/' ∉ secondsChars seconds := by
  match seconds with
  | none => exact List.not_mem_nil
  | some ⟨digits, none⟩ =>
    have first := slash_notMem_digits (h _ rfl).1.2
    simp [secondsChars, Seconds.chars_eq, fractionChars, first]
  | some ⟨digits, some (mark, run)⟩ =>
    obtain ⟨pair, fits⟩ := h _ rfl
    obtain ⟨hmark, hrun⟩ := fits _ rfl
    have first := slash_notMem_digits pair.2
    have last := slash_notMem_digits hrun.2
    rcases hmark with rfl | rfl <;>
      simp [secondsChars, Seconds.chars_eq, fractionChars, first, last]

/-- There is no slash in a time of day. -/
theorem slash_notMem_clockChars {clock : Clock} (h : clock.Fits) : '/' ∉ clock.chars := by
  obtain ⟨hgap, hhour, hminute, hseconds, hzone⟩ := h
  have gap : '/' ≠ clock.gap := by rcases hgap with eq | eq <;> rw [eq] <;> decide
  simp [Clock.chars_eq, gap, slash_notMem_digits hhour.2, slash_notMem_digits hminute.2,
    slash_notMem_secondsChars hseconds, slash_notMem_zoneChars hzone]

/-- There is no slash after the year of a form with dashes. -/
theorem slash_notMem_detailChars {detail : Detail} (h : detail.Fits) : '/' ∉ detail.chars := by
  cases detail with
  | year => exact List.not_mem_nil
  | month m => simp [Detail.chars, slash_notMem_digits h.1.2]
  | day m d => simp [Detail.chars, slash_notMem_digits h.1.1.2, slash_notMem_digits h.2.1.2]
  | time m d clock =>
    obtain ⟨hmonth, hday, hclock⟩ := h
    simp [Detail.chars, slash_notMem_digits hmonth.1.2, slash_notMem_digits hday.1.2,
      slash_notMem_clockChars hclock]

/-- **A date with dashes has no slash in it.** -/
theorem slash_notMem_dashes {sign : Option Sign} {year : List Char} {detail : Detail}
    (h : (Form.dashes sign year detail).Fits) : '/' ∉ (Form.dashes sign year detail).chars := by
  obtain ⟨hyear, hdetail⟩ := h
  simp [Form.chars, slash_notMem_signChars, slash_notMem_digits hyear.2,
    slash_notMem_detailChars hdetail]

/-- A slash in a text is one in the form that stands there. -/
theorem Form.StandsIn.slash_mem_iff {form : Form} {text : String} (h : form.StandsIn text) :
    '/' ∈ text.toList ↔ '/' ∈ form.chars := by
  obtain ⟨before, after, blankBefore, blankAfter, eq⟩ := h.between
  have noBlank : Text.isBlank '/' = false := by decide
  have outside : ∀ cs : List Char, (∀ c ∈ cs, Text.isBlank c = true) → '/' ∉ cs := by
    intro cs blanks mem
    rw [blanks '/' mem] at noBlank
    cases noBlank
  simp [eq, outside before blankBefore, outside after blankAfter]

/-! ## What the order decides -/

/-- A date with dashes is read in the same way under both orders. -/
theorem Form.instant_of_slash_notMem {form : Form} (h : '/' ∉ form.chars)
    (order other : SlashOrder) : form.instant order = form.instant other := by
  cases form with
  | dashes => rfl
  | slashes => simp [Form.chars] at h

/-- **The other order reads the numbers the other way around**, if they are spelt in ASCII. -/
theorem instant_slashes_exchange {a b : List Char} (ha : ∀ c ∈ a, c.isDigit = true)
    (hb : ∀ c ∈ b, c.isDigit = true) (sign : Option Sign) (year : List Char) :
    (Form.slashes a b sign year).instant .dayFirst =
      (Form.slashes b a sign year).instant .monthFirst := by
  have first := List.all_eq_true.2 ha
  have second := List.all_eq_true.2 hb
  simp only [Form.instant, partNumber, first, second, if_true]
  rfl

/-- One or two ASCII digits. -/
structure IsDayOrMonth (text : String) : Prop where
  digits : ∀ c ∈ text.toList, c.isDigit = true
  pos : text.toList ≠ []
  length_le : text.toList.length ≤ 2

/-- Digits of any script, with or without a sign before them. -/
structure IsSignedYear (sign : Option Sign) (digits : List Char) (text : String) : Prop where
  run : IsRun digits
  toList_eq : text.toList = signChars sign ++ digits

/-- A day or a month before a slash is a short number. -/
theorem IsDayOrMonth.isShort {text : String} (h : IsDayOrMonth text) : IsShort text.toList :=
  ⟨⟨h.pos, fun c mem => Text.isDecimal_of_isDigit (h.digits c mem)⟩, h.length_le⟩

/-- A form stands in the text of its parts. -/
theorem standsIn_slashes {a b y : String} {sign : Option Sign} {digits : List Char}
    (ha : IsDayOrMonth a) (hb : IsDayOrMonth b) (hy : IsSignedYear sign digits y) :
    (Form.slashes a.toList b.toList sign digits).StandsIn (a ++ "/" ++ b ++ "/" ++ y) := by
  refine ⟨⟨ha.isShort, hb.isShort, hy.run⟩, [], [], nofun, nofun, ?_⟩
  simp [Form.chars, hy.toList_eq]

/-- A date with slashes denotes the midnight that it says, for it has no zone. -/
theorem denotes_slashes_iff {order : SlashOrder} {a b digits : List Char} {sign : Option Sign}
    {t : Instant} : (Form.slashes a b sign digits).Denotes order t ↔
      AllAscii [a, b, digits] ∧ (Form.slashes a b sign digits).Says order t := by
  constructor
  · rintro ⟨ascii, -, L, said, same⟩
    obtain rfl := Instant.position_eq_sub_zero.1 same
    exact ⟨ascii, said⟩
  · rintro ⟨ascii, said⟩
    exact ⟨ascii, nofun, t, said, Instant.position_eq_sub_zero.2 rfl⟩

end DateText

namespace Instant

open DateText (Form IsDayOrMonth IsSignedYear Sign signedValue)
open Text (digitsValue)

variable {text : String} {t u : Instant}

/-- Without a slash the order does not matter. -/
theorem ofText_of_slash_notMem (h : '/' ∉ text.toList) (order other : SlashOrder) :
    ofText order text = ofText other text := by
  obtain ⟨before, after, -, -, eq⟩ := Text.exists_trimChars text.toList
  have trimmed : '/' ∉ Text.trimChars text.toList := by
    intro mem
    rw [eq] at h
    exact h (List.mem_append_left _ (List.mem_append_right _ mem))
  rw [ofText, ofText, DateText.instantOfChars, DateText.instantOfChars]
  split
  · rfl
  · split
    · next form scanned =>
      rw [(DateText.scan_eq_some_iff.1 scanned).2] at trimmed
      exact Form.instant_of_slash_notMem trimmed order other
    · rfl

/-- A date with slashes, the day first, is read as the midnight of its three numbers. -/
theorem ofText_slashes_eq_ok_iff {a b y : String} {sign : Option Sign} {digits : List Char}
    (ha : IsDayOrMonth a) (hb : IsDayOrMonth b) (hy : IsSignedYear sign digits y) :
    ofText .dayFirst (a ++ "/" ++ b ++ "/" ++ y) = .ok t ↔ (∀ c ∈ digits, c.isDigit = true) ∧
      t.year = signedValue sign digits ∧ t.month = digitsValue b.toList ∧
        t.day = digitsValue a.toList ∧ t.secondOfDay = 0 := by
  have ascii : DateText.AllAscii [a.toList, b.toList, digits] ↔ ∀ c ∈ digits, c.isDigit = true := by
    rw [DateText.allAscii_cons, DateText.allAscii_cons, DateText.allAscii_singleton,
      and_iff_right ha.digits, and_iff_right hb.digits]
  rw [ofText_eq_instant (DateText.standsIn_slashes ha hb hy), Form.instant_eq_ok_iff,
    DateText.denotes_slashes_iff, ascii, Form.Says]
  tauto

/-- With a slash, the two orders exchange day and month. -/
theorem exchanged_of_ofText (h : '/' ∈ text.toList) (ht : ofText .dayFirst text = .ok t)
    (hu : ofText .monthFirst text = .ok u) :
    u.year = t.year ∧ u.month = t.day ∧ u.day = t.month ∧
      t.secondOfDay = 0 ∧ u.secondOfDay = 0 := by
  obtain ⟨form, stands⟩ := exists_standsIn_of_ofText ht
  rw [ofText_eq_instant stands, Form.instant_eq_ok_iff] at ht hu
  rw [stands.slash_mem_iff] at h
  cases form with
  | dashes sign year detail => exact absurd h (DateText.slash_notMem_dashes stands.fits)
  | slashes a b sign year =>
    obtain ⟨-, year, midnight, day, month⟩ := DateText.denotes_slashes_iff.1 ht
    obtain ⟨-, year', midnight', month', day'⟩ := DateText.denotes_slashes_iff.1 hu
    exact ⟨year'.trans year.symm, month'.trans day.symm, day'.trans month.symm, midnight, midnight'⟩

/-- **The order only exchanges the first two numbers.**  The date `a/b/y`, with one or two ASCII
digits for `a` and `b`, is read with the day first as `b/a/y` is read with the month first, and it
is refused for the same reason; what it is read as is the midnight of its three numbers, if there is
such a day and the year is in ASCII too.  A text without a slash has the same result under both
orders.  If both orders accept a text with a slash, they give midnights of the same year, the day of
the one being the month of the other. -/
theorem ofText_orders_exchange :
    (∀ a b y sign digits, IsDayOrMonth a → IsDayOrMonth b → IsSignedYear sign digits y →
      ofText .dayFirst (a ++ "/" ++ b ++ "/" ++ y) =
        ofText .monthFirst (b ++ "/" ++ a ++ "/" ++ y) ∧
      ∀ t, ofText .dayFirst (a ++ "/" ++ b ++ "/" ++ y) = .ok t ↔
        (∀ c ∈ digits, c.isDigit = true) ∧ t.year = signedValue sign digits ∧
          t.month = digitsValue b.toList ∧ t.day = digitsValue a.toList ∧ t.secondOfDay = 0) ∧
    (∀ text : String, '/' ∉ text.toList → ofText .dayFirst text = ofText .monthFirst text) ∧
    ∀ (text : String) (t u : Instant), '/' ∈ text.toList → ofText .dayFirst text = .ok t →
      ofText .monthFirst text = .ok u → u.year = t.year ∧ u.month = t.day ∧ u.day = t.month ∧
        t.secondOfDay = 0 ∧ u.secondOfDay = 0 := by
  refine ⟨fun a b y sign digits ha hb hy => ⟨?_, fun t => ofText_slashes_eq_ok_iff ha hb hy⟩,
    fun text h => ofText_of_slash_notMem h _ _, fun text t u => exchanged_of_ofText⟩
  rw [ofText_eq_instant (DateText.standsIn_slashes ha hb hy),
    ofText_eq_instant (DateText.standsIn_slashes hb ha hy)]
  exact DateText.instant_slashes_exchange ha.digits hb.digits sign digits

/-- The hypotheses of `ofText_orders_exchange` hold of a leap day, of a text without a slash that is
refused, and of a date in the year -43 that is the fifth of April or the fourth of May. -/
theorem ofText_orders_exchange_leap_day :
    (IsDayOrMonth "29" ∧ IsDayOrMonth "2" ∧ IsSignedYear (some .minus) ['4', '4'] "-44" ∧
      ofText .dayFirst ("29" ++ "/" ++ "2" ++ "/" ++ "-44") =
        ofText .monthFirst ("2" ++ "/" ++ "29" ++ "/" ++ "-44") ∧
      ∃ t, ofText .dayFirst ("29" ++ "/" ++ "2" ++ "/" ++ "-44") = .ok t) ∧
    ('/' ∉ "2021-02-29".toList ∧ ofText .dayFirst "2021-02-29" = ofText .monthFirst "2021-02-29") ∧
    ∃ t u, ofText .dayFirst " 05/04/-43" = .ok t ∧ ofText .monthFirst " 05/04/-43" = .ok u ∧
      u.year = t.year ∧ u.month = t.day ∧ u.day = t.month := by
  have day : IsDayOrMonth "29" :=
    ⟨List.all_eq_true.1 (by decide +kernel), by decide +kernel, by decide +kernel⟩
  have month : IsDayOrMonth "2" :=
    ⟨List.all_eq_true.1 (by decide +kernel), by decide +kernel, by decide +kernel⟩
  have year : IsSignedYear (some .minus) ['4', '4'] "-44" :=
    ⟨⟨nofun, List.all_eq_true.1 (by decide)⟩, by decide +kernel⟩
  have noSlash : '/' ∉ "2021-02-29".toList := by decide +kernel
  have april : ofText .dayFirst " 05/04/-43" =
      .ok (.midnight (-43) 4 5 (by decide) (by decide) (by decide)) := by decide +kernel
  have may : ofText .monthFirst " 05/04/-43" =
      .ok (.midnight (-43) 5 4 (by decide) (by decide) (by decide)) := by decide +kernel
  obtain ⟨exchange, same, both⟩ := ofText_orders_exchange
  obtain ⟨exchanged, read⟩ := exchange _ _ _ _ _ day month year
  have leapDay := (read (.midnight (-44) 2 29 (by decide) (by decide) (by decide))).2
    ⟨List.all_eq_true.1 (by decide), by decide, by decide +kernel, by decide +kernel, by decide⟩
  obtain ⟨years, months, days, -⟩ := both _ _ _ (by decide +kernel) april may
  exact ⟨⟨day, month, year, exchanged, _, leapDay⟩, ⟨noSlash, same _ noSlash⟩,
    _, _, april, may, years, months, days⟩

end Instant
end DateFacet
