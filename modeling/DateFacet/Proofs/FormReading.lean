/-
# What is read was written

`DateFacet.Proofs.Scanning` says that the characters of every form are read as this form.  Here is
the other direction.  Each scanner gives back what it took, so the characters in front of it are
those that it took and those that it left, and the digits that it took are as many as the form may
hold.  Put together from the innermost part outwards they give `scan_eq_some_iff`: reading accepts
the characters of the forms and nothing else.

A text may have blanks around its form.  No form starts or ends with one, so trimming finds the form
again (`trimChars_eq_chars_iff`), although the gap before a time of day may be a space.  A text is
then read as the form that stands in it (`Instant.ofText_eq_instant`), and a text in which none
stands is refused (`Instant.exists_standsIn_of_ofText`).
-/

import DateFacet.DateText.Meaning
import DateFacet.Proofs.Scanning

namespace DateFacet

namespace Text

variable {cs before after : List Char}

/-- No digit of any script is a blank. -/
theorem isBlank_of_isDecimal {c : Char} (h : isDecimal c = true) : isBlank c = false := by
  simp only [isDecimal, List.any_eq_true, Bool.and_eq_true, decide_eq_true_eq] at h
  obtain ⟨start, mem, lo, hi⟩ := h
  have apart : ∀ start ∈ digitZeros, 32 < start ∧ (start + 10 ≤ 133 ∨ 160 < start) ∧
      (start + 10 ≤ 5760 ∨ 5760 < start) ∧ (start + 10 ≤ 8192 ∨ 12288 < start) := by decide
  have := apart start mem
  simp only [isBlank, Bool.or_eq_false_iff, Bool.and_eq_false_iff, decide_eq_false_iff_not,
    beq_eq_false_iff_ne]
  omega

/-- Trimming splits characters into blanks, what is left, and blanks. -/
theorem exists_trimChars (cs : List Char) : ∃ before after,
    (∀ c ∈ before, isBlank c = true) ∧ (∀ c ∈ after, isBlank c = true) ∧
      cs = before ++ trimChars cs ++ after := by
  refine ⟨cs.takeWhile isBlank, ((cs.dropWhile isBlank).reverse.takeWhile isBlank).reverse,
    List.all_eq_true.1 List.all_takeWhile, ?_, ?_⟩
  · simpa only [List.mem_reverse] using List.all_eq_true.1 List.all_takeWhile
  · rw [trimChars, dropBlankEnd, List.append_assoc, ← List.reverse_append,
      List.takeWhile_append_dropWhile, List.reverse_reverse, List.takeWhile_append_dropWhile]

/-- Characters that neither start nor end with a blank are found again between blanks. -/
theorem trimChars_append (blankBefore : ∀ c ∈ before, isBlank c = true)
    (blankAfter : ∀ c ∈ after, isBlank c = true) (ne : cs ≠ [])
    (first : ∀ c ∈ cs.head?, isBlank c = false) (last : ∀ c ∈ cs.getLast?, isBlank c = false) :
    trimChars (before ++ cs ++ after) = cs := by
  have start : ∀ c ∈ (cs ++ after).head?, isBlank c = false := by
    obtain ⟨c, rest, rfl⟩ := List.exists_cons_of_ne_nil ne
    exact first
  have stop : ∀ c ∈ cs.reverse.head?, isBlank c = false := by
    rwa [List.head?_reverse]
  have reversed : ∀ c ∈ after.reverse, isBlank c = true := by
    simpa only [List.mem_reverse] using blankAfter
  rw [trimChars, List.append_assoc, (takeWhile_dropWhile_append blankBefore start).2, dropBlankEnd,
    List.reverse_append, (takeWhile_dropWhile_append reversed stop).2, List.reverse_reverse]

end Text

namespace DateText

open Text (isDecimal isBlank trimChars)

variable {cs ds rest : List Char}

/-! ## Digits -/

/-- The scan of a run takes digits off the front, at least one. -/
theorem isRun_of_scanRun (h : scanRun cs = some (ds, rest)) : IsRun ds ∧ cs = ds ++ rest := by
  unfold scanRun at h
  split at h
  · cases h
  · next some =>
    obtain ⟨rfl, rfl⟩ := Prod.mk.inj (Option.some.inj h)
    exact ⟨⟨by simpa using some, List.all_eq_true.1 List.all_takeWhile⟩,
      List.takeWhile_append_dropWhile.symm⟩

/-- The scan of a pair takes two digits off the front. -/
theorem isPair_of_scanPair (h : scanPair cs = some (ds, rest)) : IsPair ds ∧ cs = ds ++ rest := by
  unfold scanPair at h
  split at h
  · split at h
    · next digits =>
      obtain ⟨rfl, rfl⟩ := Prod.mk.inj (Option.some.inj h)
      rw [Bool.and_eq_true] at digits
      exact ⟨⟨rfl, by simpa using digits⟩, rfl⟩
    · cases h
  · cases h

/-- The scan of a short number takes one or two digits off the front. -/
theorem isShort_of_scanShort (h : scanShort cs = some (ds, rest)) :
    IsShort ds ∧ cs = ds ++ rest := by
  unfold scanShort at h
  split at h
  · split at h
    · next first =>
      split at h <;> obtain ⟨rfl, rfl⟩ := Prod.mk.inj (Option.some.inj h)
      · next second => exact ⟨⟨⟨nofun, by simp [first, second]⟩, Nat.le_refl 2⟩, rfl⟩
      · exact ⟨⟨⟨nofun, by simp [first]⟩, by simp⟩, rfl⟩
    · cases h
  · split at h
    · next digit =>
      obtain ⟨rfl, rfl⟩ := Prod.mk.inj (Option.some.inj h)
      exact ⟨⟨⟨nofun, by simp [digit]⟩, by simp⟩, rfl⟩
    · cases h
  · cases h

/-! ## Signs, zones and times -/

/-- A sign is taken off with nothing lost. -/
theorem signChars_scanSign (cs : List Char) :
    signChars (scanSign cs).1 ++ (scanSign cs).2 = cs := by
  unfold scanSign
  split <;> rfl

/-- A scanned offset fits, and its characters are those that were scanned. -/
theorem fits_of_scanOffset {sign : Sign} {zone : Zone} (h : scanOffset sign cs = some zone) :
    zone.Fits ∧ sign.char :: cs = zone.chars := by
  simp only [scanOffset, Option.bind_eq_bind, Option.bind_eq_some_iff, Prod.exists] at h
  obtain ⟨hour, afterHour, hhour, minute, afterMinute, hminute, h⟩ := h
  obtain ⟨pairHour, rfl⟩ := isPair_of_scanPair hhour
  split at h
  · next done =>
    obtain rfl := Option.some.inj h
    obtain ⟨pairMinute, eq⟩ := isPair_of_scanPair hminute
    rw [List.isEmpty_iff.1 done, List.append_nil] at eq
    refine ⟨⟨pairHour, pairMinute⟩, ?_⟩
    -- The colon is there or not.
    split at eq <;> subst eq <;> simp [Zone.chars]
  · cases h

/-- A scanned zone fits, if there is one, and is written with all the characters. -/
theorem fits_of_scanZone {zone : Option Zone} (h : scanZone cs = some zone) :
    (∀ z ∈ zone, z.Fits) ∧ cs = zoneChars zone := by
  unfold scanZone at h
  split at h
  · obtain rfl := Option.some.inj h
    exact ⟨nofun, rfl⟩
  · obtain rfl := Option.some.inj h
    exact ⟨by rintro z ⟨⟩; exact .inl rfl, rfl⟩
  · obtain rfl := Option.some.inj h
    exact ⟨by rintro z ⟨⟩; exact .inr rfl, rfl⟩
  · obtain ⟨z, hz, rfl⟩ := Option.map_eq_some_iff.1 h
    obtain ⟨fits, chars⟩ := fits_of_scanOffset hz
    exact ⟨by rintro _ ⟨⟩; exact fits, chars⟩
  · obtain ⟨z, hz, rfl⟩ := Option.map_eq_some_iff.1 h
    obtain ⟨fits, chars⟩ := fits_of_scanOffset hz
    exact ⟨by rintro _ ⟨⟩; exact fits, chars⟩
  · cases h

/-- A scanned fraction has a mark and digits, and is taken off the front. -/
theorem fits_of_scanFraction {fraction : Option (Char × List Char)}
    (h : scanFraction cs = some (fraction, rest)) :
    (∀ f ∈ fraction, (f.1 = '.' ∨ f.1 = ',') ∧ IsRun f.2) ∧
      cs = fractionChars fraction ++ rest := by
  unfold scanFraction at h
  split at h
  · obtain ⟨⟨digits, rest⟩, hrun, h⟩ := Option.map_eq_some_iff.1 h
    obtain ⟨rfl, rfl⟩ := Prod.mk.inj h
    obtain ⟨run, rfl⟩ := isRun_of_scanRun hrun
    exact ⟨by rintro _ ⟨⟩; exact ⟨.inl rfl, run⟩, rfl⟩
  · obtain ⟨⟨digits, rest⟩, hrun, h⟩ := Option.map_eq_some_iff.1 h
    obtain ⟨rfl, rfl⟩ := Prod.mk.inj h
    obtain ⟨run, rfl⟩ := isRun_of_scanRun hrun
    exact ⟨by rintro _ ⟨⟩; exact ⟨.inr rfl, run⟩, rfl⟩
  · obtain ⟨rfl, rfl⟩ := Prod.mk.inj (Option.some.inj h)
    exact ⟨nofun, rfl⟩

/-- Scanned seconds fit, if there are any, and are taken off the front. -/
theorem fits_of_scanSeconds {seconds : Option Seconds}
    (h : scanSeconds cs = some (seconds, rest)) :
    (∀ s ∈ seconds, s.Fits) ∧ cs = secondsChars seconds ++ rest := by
  unfold scanSeconds at h
  split at h
  · simp only [Option.bind_eq_bind, Option.bind_eq_some_iff, Prod.exists] at h
    obtain ⟨digits, afterDigits, hdigits, fraction, afterFraction, hfraction, h⟩ := h
    obtain ⟨rfl, rfl⟩ := Prod.mk.inj (Option.some.inj h)
    obtain ⟨pair, rfl⟩ := isPair_of_scanPair hdigits
    obtain ⟨fits, rfl⟩ := fits_of_scanFraction hfraction
    exact ⟨by rintro _ ⟨⟩; exact ⟨pair, fits⟩, by simp [secondsChars, Seconds.chars_eq]⟩
  · obtain ⟨rfl, rfl⟩ := Prod.mk.inj (Option.some.inj h)
    exact ⟨by rintro _ ⟨⟩, rfl⟩

/-- A scanned time of day fits, and is written with all the characters. -/
theorem fits_of_scanClock {gap : Char} (hgap : gap = 'T' ∨ gap = ' ') {clock : Clock}
    (h : scanClock gap cs = some clock) : clock.Fits ∧ gap :: cs = clock.chars := by
  simp only [scanClock, Option.bind_eq_bind, Option.bind_eq_some_iff, Prod.exists] at h
  obtain ⟨hour, afterHour, hhour, h⟩ := h
  obtain ⟨pairHour, rfl⟩ := isPair_of_scanPair hhour
  split at h
  · simp only [Option.bind_eq_some_iff, Prod.exists] at h
    obtain ⟨minute, afterMinute, hminute, seconds, afterSeconds, hseconds, zone, hzone, h⟩ := h
    obtain rfl := Option.some.inj h
    obtain ⟨pairMinute, rfl⟩ := isPair_of_scanPair hminute
    obtain ⟨fitsSeconds, rfl⟩ := fits_of_scanSeconds hseconds
    obtain ⟨fitsZone, rfl⟩ := fits_of_scanZone hzone
    exact ⟨⟨hgap, pairHour, pairMinute, fitsSeconds, fitsZone⟩, by rw [Clock.chars_eq]⟩
  · cases h

/-! ## Dates -/

/-- What is scanned after the year fits, and is written with all the characters. -/
theorem fits_of_scanDetail {detail : Detail} (h : scanDetail cs = some detail) :
    detail.Fits ∧ cs = detail.chars := by
  unfold scanDetail at h
  split at h
  · obtain rfl := Option.some.inj h
    exact ⟨trivial, rfl⟩
  · simp only [Option.bind_eq_bind, Option.bind_eq_some_iff, Prod.exists] at h
    obtain ⟨month, afterMonth, hmonth, h⟩ := h
    obtain ⟨shortMonth, rfl⟩ := isShort_of_scanShort hmonth
    split at h
    · obtain rfl := Option.some.inj h
      exact ⟨shortMonth, by simp [Detail.chars]⟩
    · simp only [Option.bind_eq_some_iff, Prod.exists] at h
      obtain ⟨day, afterDay, hday, h⟩ := h
      obtain ⟨shortDay, rfl⟩ := isShort_of_scanShort hday
      split at h
      · obtain rfl := Option.some.inj h
        exact ⟨⟨shortMonth, shortDay⟩, by simp [Detail.chars]⟩
      · obtain ⟨clock, hclock, rfl⟩ := Option.map_eq_some_iff.1 h
        obtain ⟨fits, chars⟩ := fits_of_scanClock (.inl rfl) hclock
        exact ⟨⟨shortMonth, shortDay, fits⟩, by simp [Detail.chars, chars]⟩
      · obtain ⟨clock, hclock, rfl⟩ := Option.map_eq_some_iff.1 h
        obtain ⟨fits, chars⟩ := fits_of_scanClock (.inr rfl) hclock
        exact ⟨⟨shortMonth, shortDay, fits⟩, by simp [Detail.chars, chars]⟩
      · cases h
    · cases h
  · cases h

/-- A form that is scanned with dashes fits, and is written with all the characters. -/
theorem fits_of_scanDashes {form : Form} (h : scanDashes cs = some form) :
    form.Fits ∧ cs = form.chars := by
  simp only [scanDashes, Option.bind_eq_bind, Option.bind_eq_some_iff, Prod.exists] at h
  obtain ⟨year, afterYear, hyear, detail, hdetail, h⟩ := h
  obtain rfl := Option.some.inj h
  obtain ⟨run, eq⟩ := isRun_of_scanRun hyear
  obtain ⟨fits, rfl⟩ := fits_of_scanDetail hdetail
  exact ⟨⟨run, fits⟩, by rw [Form.chars, List.append_assoc, ← eq, signChars_scanSign]⟩

/-- A number before a slash is short, and the slash is taken off with it. -/
theorem isShort_of_scanBeforeSlash (h : scanBeforeSlash cs = some (ds, rest)) :
    IsShort ds ∧ cs = ds ++ '/' :: rest := by
  simp only [scanBeforeSlash, Option.bind_eq_bind, Option.bind_eq_some_iff, Prod.exists] at h
  obtain ⟨number, afterNumber, hnumber, h⟩ := h
  obtain ⟨short, rfl⟩ := isShort_of_scanShort hnumber
  split at h
  · obtain ⟨rfl, rfl⟩ := Prod.mk.inj (Option.some.inj h)
    exact ⟨short, rfl⟩
  · cases h

/-- A form that is scanned with slashes fits, and is written with all the characters. -/
theorem fits_of_scanSlashes {form : Form} (h : scanSlashes cs = some form) :
    form.Fits ∧ cs = form.chars := by
  simp only [scanSlashes, Option.bind_eq_bind, Option.bind_eq_some_iff, Prod.exists] at h
  obtain ⟨first, afterFirst, hfirst, second, afterSecond, hsecond, year, afterYear, hyear, h⟩ := h
  obtain ⟨shortFirst, rfl⟩ := isShort_of_scanBeforeSlash hfirst
  obtain ⟨shortSecond, rfl⟩ := isShort_of_scanBeforeSlash hsecond
  split at h
  · next done =>
    obtain rfl := Option.some.inj h
    obtain ⟨run, eq⟩ := isRun_of_scanRun hyear
    rw [List.isEmpty_iff.1 done, List.append_nil] at eq
    exact ⟨⟨shortFirst, shortSecond, run⟩, by
      simp only [Form.chars, List.append_assoc, List.cons_append, ← eq, signChars_scanSign]⟩
  · cases h

/-- **What is read was written**, and nothing else is read. -/
theorem scan_eq_some_iff {form : Form} : scan cs = some form ↔ form.Fits ∧ cs = form.chars := by
  constructor
  · intro h
    rw [scan, Option.or_eq_some_iff] at h
    rcases h with dashes | ⟨-, slashes⟩
    · exact fits_of_scanDashes dashes
    · exact fits_of_scanSlashes slashes
  · rintro ⟨fits, rfl⟩
    exact scan_chars fits

/-! ## Blanks around a form -/

/-- There is no blank among the characters. -/
def NoBlank (cs : List Char) : Prop := ∀ c ∈ cs, isBlank c = false

theorem noBlank_append {a b : List Char} : NoBlank (a ++ b) ↔ NoBlank a ∧ NoBlank b :=
  List.forall_mem_append

/-- There is no blank after a character that is none, and none in the rest. -/
theorem noBlank_cons {c : Char} : NoBlank (c :: cs) ↔ isBlank c = false ∧ NoBlank cs :=
  List.forall_mem_cons

/-- Digits of any script are no blanks. -/
theorem noBlank_of_digits (h : ∀ c ∈ ds, isDecimal c = true) : NoBlank ds :=
  fun c hc => Text.isBlank_of_isDecimal (h c hc)

/-- A sign is no blank. -/
theorem noBlank_signChars (sign : Option Sign) : NoBlank (signChars sign) := by
  rcases sign with _ | _ | _ <;> rintro c ⟨⟩ <;> first | decide | contradiction

/-- There is no blank in a zone. -/
theorem noBlank_zoneChars {zone : Option Zone} (h : ∀ z ∈ zone, z.Fits) :
    NoBlank (zoneChars zone) := by
  match zone with
  | none => exact nofun
  | some (.universal mark) =>
    rcases h _ rfl with rfl | rfl <;> exact noBlank_cons.2 ⟨by decide, nofun⟩
  | some (.offset sign hour colon minute) =>
    obtain ⟨hhour, hminute⟩ := h _ rfl
    have mark : isBlank sign.char = false := by cases sign <;> decide
    have middle : NoBlank (if colon then [':'] else []) := by
      split
      · exact noBlank_cons.2 ⟨by decide, nofun⟩
      · exact nofun
    simp only [zoneChars, Option.map_some, Option.getD_some, Zone.chars, List.cons_append,
      noBlank_cons, noBlank_append]
    exact ⟨mark, ⟨noBlank_of_digits hhour.2, middle⟩, noBlank_of_digits hminute.2⟩

/-- There is no blank in seconds with their fraction. -/
theorem noBlank_secondsChars {seconds : Option Seconds} (h : ∀ s ∈ seconds, s.Fits) :
    NoBlank (secondsChars seconds) := by
  match seconds with
  | none => exact nofun
  | some ⟨digits, fraction⟩ =>
    obtain ⟨pair, fits⟩ := h _ rfl
    have rest : NoBlank (fractionChars fraction) := by
      match fraction with
      | none => exact nofun
      | some (mark, run) =>
        obtain ⟨hmark, hrun⟩ := fits _ rfl
        have noBlank : isBlank mark = false := by rcases hmark with rfl | rfl <;> decide
        exact noBlank_cons.2 ⟨noBlank, noBlank_of_digits hrun.2⟩
    simp only [secondsChars, Option.map_some, Option.getD_some, Seconds.chars_eq]
    exact noBlank_cons.2 ⟨by decide, noBlank_append.2 ⟨noBlank_of_digits pair.2, rest⟩⟩

/-- The first and the last of the characters are there, and are no blanks. -/
def HasEnds (cs : List Char) : Prop :=
  cs ≠ [] ∧ (∀ c ∈ cs.head?, isBlank c = false) ∧ ∀ c ∈ cs.getLast?, isBlank c = false

/-- Characters without a blank do not begin or end with one. -/
theorem hasEnds_of_noBlank (ne : cs ≠ []) (h : NoBlank cs) : HasEnds cs :=
  ⟨ne, fun c hc => h c (List.mem_of_mem_head? hc), fun c hc => h c (List.mem_of_getLast? hc)⟩

theorem IsRun.hasEnds (h : IsRun ds) : HasEnds ds :=
  hasEnds_of_noBlank h.1 (noBlank_of_digits h.2)

/-- A run of digits does not begin or end with a blank, with or without a sign. -/
theorem IsRun.hasEnds_signed (h : IsRun ds) (sign : Option Sign) :
    HasEnds (signChars sign ++ ds) := by
  refine hasEnds_of_noBlank (fun nil => h.1 (List.append_eq_nil_iff.1 nil).2) ?_
  exact noBlank_append.2 ⟨noBlank_signChars sign, noBlank_of_digits h.2⟩

/-- What stands between two ends does not matter. -/
theorem HasEnds.append {a b : List Char} (ha : HasEnds a) (hb : HasEnds b) (middle : Char) :
    HasEnds (a ++ middle :: b) := by
  obtain ⟨first, as, rfl⟩ := List.exists_cons_of_ne_nil ha.1
  obtain ⟨next, bs, rfl⟩ := List.exists_cons_of_ne_nil hb.1
  refine ⟨nofun, ha.2.1, ?_⟩
  rw [List.getLast?_append, List.getLast?_cons_cons, Option.or_of_isSome (by simp)]
  exact hb.2.2

/-- A time of day has no blanks after its gap. -/
theorem Clock.exists_hasEnds {clock : Clock} (h : clock.Fits) :
    ∃ cs, clock.chars = clock.gap :: cs ∧ HasEnds cs := by
  obtain ⟨-, hhour, hminute, hseconds, hzone⟩ := h
  refine ⟨_, clock.chars_eq, hasEnds_of_noBlank (by simp) ?_⟩
  exact noBlank_append.2 ⟨noBlank_of_digits hhour.2, noBlank_cons.2 ⟨by decide,
    noBlank_append.2 ⟨noBlank_of_digits hminute.2,
      noBlank_append.2 ⟨noBlank_secondsChars hseconds, noBlank_zoneChars hzone⟩⟩⟩⟩

/-- **No form starts or ends with a blank.** -/
theorem Form.hasEnds_chars {form : Form} (h : form.Fits) : HasEnds form.chars := by
  cases form with
  | slashes first second sign year =>
    obtain ⟨hfirst, hsecond, hyear⟩ := h
    have last := hsecond.1.hasEnds.append (hyear.hasEnds_signed sign) '/'
    simpa [Form.chars] using hfirst.1.hasEnds.append last '/'
  | dashes sign year detail =>
    obtain ⟨hyear, hdetail⟩ := h
    have start := hyear.hasEnds_signed sign
    cases detail with
    | year => simpa [Form.chars, Detail.chars] using start
    | month m => exact start.append hdetail.1.hasEnds '-'
    | day m d =>
      have last := hdetail.1.1.hasEnds.append hdetail.2.1.hasEnds '-'
      simpa [Form.chars, Detail.chars] using start.append last '-'
    | time m d clock =>
      obtain ⟨hmonth, hday, hclock⟩ := hdetail
      obtain ⟨cs, hcs, ends⟩ := clock.exists_hasEnds hclock
      have last := hmonth.1.hasEnds.append (hday.1.hasEnds.append ends clock.gap) '-'
      simpa [Form.chars, Detail.chars, hcs] using start.append last '-'

/-- **Trimming finds a form between blanks**, and only there. -/
theorem trimChars_eq_chars_iff {form : Form} (h : form.Fits) : trimChars cs = form.chars ↔
    ∃ before after, (∀ c ∈ before, isBlank c = true) ∧ (∀ c ∈ after, isBlank c = true) ∧
      cs = before ++ form.chars ++ after := by
  constructor
  · intro trimmed
    rw [← trimmed]
    exact Text.exists_trimChars cs
  · rintro ⟨before, after, blankBefore, blankAfter, rfl⟩
    obtain ⟨ne, first, last⟩ := form.hasEnds_chars h
    exact Text.trimChars_append blankBefore blankAfter ne first last

/-- The characters of a form as a text. -/
def Form.text (form : Form) : String := String.ofList form.chars

/-- **A form stands in a text**: its digits are as many as it may hold, and the text has nothing
else than blanks around it. -/
structure Form.StandsIn (form : Form) (text : String) : Prop where
  fits : form.Fits
  between : ∃ before after, (∀ c ∈ before, isBlank c = true) ∧ (∀ c ∈ after, isBlank c = true) ∧
    text.toList = before ++ form.chars ++ after

/-- The text of a form has this form in it. -/
theorem Form.standsIn_text {form : Form} (h : form.Fits) : form.StandsIn form.text :=
  ⟨h, [], [], nofun, nofun, by simp [Form.text]⟩

end DateText

namespace Instant

open DateText (Form)

variable {order : SlashOrder} {text : String}

/-- A text is read as the form that stands in it. -/
theorem ofText_eq_instant {form : Form} (h : form.StandsIn text) :
    ofText order text = form.instant order := by
  have ne : form.chars.isEmpty = false := by simpa using (form.hasEnds_chars h.fits).1
  rw [ofText, (DateText.trimChars_eq_chars_iff h.fits).2 h.between, DateText.instantOfChars, ne,
    DateText.scan_chars h.fits]
  rfl

/-- Only a text in which a form stands is read. -/
theorem exists_standsIn_of_ofText {t : Instant} (h : ofText order text = .ok t) :
    ∃ form : Form, form.StandsIn text := by
  rw [ofText, DateText.instantOfChars] at h
  split at h
  · cases h
  · split at h
    · next form scanned =>
      obtain ⟨fits, trimmed⟩ := DateText.scan_eq_some_iff.1 scanned
      exact ⟨form, fits, (DateText.trimChars_eq_chars_iff fits).1 trimmed⟩
    · cases h

end Instant
end DateFacet
