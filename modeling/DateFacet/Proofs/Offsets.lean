/-
# Offsets from universal time

A text writes a local time and says how many minutes this is ahead of universal time
(`WritesLocal`).  All that the reader makes of it is the difference on the line of seconds
(`ofText_eq_ok_iff_of_writes`), so texts with the same difference are the same to it, however the
two parts are spelt.

Each local time can be written with each offset (`writesLocal_zonedText`).  Whether the text is then
accepted depends on the difference alone, which has to lie between the ends of the line.  The marks
of universal time and the offset of no minutes add nothing to a local time (`ofText_universal`).
-/

import DateFacet.Proofs.DateMeaning
import DateFacet.Proofs.RoundTrip

namespace DateFacet
namespace DateText

open Instant (Fault ofText)
open Text (digitsValue padded isBlank)

variable {order : SlashOrder} {text : String} {L : Instant}

/-- **A text writes a local time** that is so many minutes ahead of universal time. -/
def WritesLocal (order : SlashOrder) (text : String) (L : Instant) (ahead : Int) : Prop :=
  ∃ form : Form, form.StandsIn text ∧ AllAscii form.fields ∧ (∀ zone ∈ form.zone, zone.InRange) ∧
    form.Says order L ∧ form.ahead = ahead

/-! ## What is read -/

/-- An instant is known from its date and its second of the day. -/
theorem eq_of_date {a b : Instant} (date : a.date = b.date)
    (second : a.secondOfDay = b.secondOfDay) : a = b := by
  rw [← Instant.position_inj, Instant.position, Instant.position, Instant.daysSinceEpoch,
    Instant.daysSinceEpoch, date, second]

/-- A form says one local time. -/
theorem Form.Says.unique {form : Form} {L' : Instant} (h : form.Says order L)
    (h' : form.Says order L') : L = L' := by
  cases form with
  | slashes first second sign year =>
    cases order <;> exact eq_of_date (by simp_all [Form.Says, Instant.date])
      (h.2.1.trans h'.2.1.symm)
  | dashes sign year detail =>
    refine eq_of_date ?_ ?_ <;> cases detail <;>
      simp_all [Form.Says, Detail.Says, Instant.date, Instant.secondOfDay]

/-- **The reader takes the offset away from the local time.** -/
theorem ofText_eq_ok_iff_of_writes {ahead : Int} (h : WritesLocal order text L ahead)
    {t : Instant} : ofText order text = .ok t ↔ t.position = L.position - 60 * ahead := by
  obtain ⟨form, stands, ascii, inRange, said, rfl⟩ := h
  rw [Instant.ofText_eq_instant stands, Form.instant_eq_ok_iff]
  constructor
  · rintro ⟨-, -, L', said', shifted⟩
    obtain rfl := said.unique said'
    exact shifted
  · exact fun shifted => ⟨ascii, inRange, L, said, shifted⟩

/-- Whatever is accepted writes a local time. -/
theorem exists_writesLocal {t : Instant} (h : ofText order text = .ok t) :
    ∃ L ahead, WritesLocal order text L ahead := by
  obtain ⟨form, stands⟩ := Instant.exists_standsIn_of_ofText h
  rw [Instant.ofText_eq_instant stands, Form.instant_eq_ok_iff] at h
  obtain ⟨ascii, inRange, L, said, -⟩ := h
  exact ⟨L, _, form, stands, ascii, inRange, said, rfl⟩

/-! ## What can be written -/

/-- An offset of so many hours and minutes, with or without a colon between them. -/
def Zone.ofClock (sign : Sign) (hour minute : Nat) (colon : Bool) : Zone :=
  .offset sign (padded 2 hour) colon (padded 2 minute)

/-- A number below a hundred is written with two digits. -/
theorem isPair_padded {n : Nat} (h : n ≤ 99) : IsPair (padded 2 n) := by
  have small : n < Nat.pow 10 2 := by
    change n < 100
    omega
  exact ⟨Text.length_padded_of_lt (by decide) small,
    fun _ hc => Text.isDecimal_of_isDigit (Text.isDigit_of_mem_padded hc)⟩

/-- The zone of an hour and a minute fits. -/
theorem Zone.fits_ofClock (sign : Sign) {hour minute : Nat} (hhour : hour ≤ 23)
    (hminute : minute ≤ 59) (colon : Bool) : (ofClock sign hour minute colon).Fits :=
  ⟨isPair_padded (by omega), isPair_padded (by omega)⟩

/-- The zone of an hour and a minute is written with ASCII digits. -/
theorem Zone.allAscii_ofClock (sign : Sign) (hour minute : Nat) (colon : Bool) :
    AllAscii (ofClock sign hour minute colon).fields :=
  allAscii_cons.2 ⟨fun _ hc => Text.isDigit_of_mem_padded hc,
    allAscii_singleton.2 fun _ hc => Text.isDigit_of_mem_padded hc⟩

/-- The zone of an hour and a minute is in range if they are those of a clock. -/
theorem Zone.inRange_ofClock {sign : Sign} {hour minute : Nat} {colon : Bool} :
    (ofClock sign hour minute colon).InRange ↔ hour ≤ 23 ∧ minute ≤ 59 := by
  simp [ofClock, InRange]

/-- The zone of an hour and a minute is that many minutes ahead, or behind for a minus sign. -/
theorem Zone.ahead_ofClock (sign : Sign) (hour minute : Nat) (colon : Bool) :
    (ofClock sign hour minute colon).ahead = sign.apply (hour * 60 + minute) := by
  simp [ofClock, ahead]

/-- Digits of the right value, with the sign of the year in front, are the number of the year. -/
theorem year_eq_signedValue (L : Instant) {digits : List Char}
    (h : digitsValue digits = L.year.natAbs) : L.year = signedValue L.canonical.sign digits := by
  have negative : L.canonical.negative = decide (L.year < 0) := rfl
  rw [signedValue, h, Canonical.sign, negative]
  by_cases early : L.year < 0
  · rw [decide_eq_true early, if_pos rfl, Option.getD_some, Sign.apply]
    omega
  · rw [decide_eq_false early, if_neg Bool.false_ne_true, Option.getD_none, Sign.apply]
    omega

/-- The digits of a written instant say the instant. -/
theorem says_canonical (order : SlashOrder) (L : Instant) (fraction : Option (Char × List Char))
    (zone : Option Zone) : (L.canonical.zoned fraction zone).Says order L := by
  have year := year_eq_signedValue L (Text.digitsValue_padded 4 L.year.natAbs)
  simp only [Canonical.zoned, Form.Says, Detail.Says, Instant.canonical, Text.digitsValue_padded,
    Option.map_some, Option.getD_some, and_self, and_true]
  exact year

/-- The text of a local time with a fraction of a second and an offset. -/
def zonedText (L : Instant) (fraction : Option (Char × List Char)) (zone : Zone) : String :=
  (L.canonical.zoned fraction (some zone)).text

/-- **Every local time can be written with every offset of a clock**, with a colon or without one,
and with a fraction of a second or without one. -/
theorem writesLocal_zonedText (order : SlashOrder) (L : Instant)
    {fraction : Option (Char × List Char)}
    (hfraction : ∀ f ∈ fraction, (f.1 = '.' ∨ f.1 = ',') ∧ IsRun f.2) (sign : Sign)
    {hour minute : Nat} (hhour : hour ≤ 23) (hminute : minute ≤ 59) (colon : Bool) :
    WritesLocal order (zonedText L fraction (.ofClock sign hour minute colon)) L
      (sign.apply (hour * 60 + minute)) := by
  have fits : (L.canonical.zoned fraction (some (.ofClock sign hour minute colon))).Fits := by
    refine L.canonical.zoned_fits hfraction ?_
    rintro _ ⟨⟩
    exact Zone.fits_ofClock sign hhour hminute colon
  exact ⟨_, Form.standsIn_text fits,
    allAscii_append.2 ⟨L.canonical.digits, Zone.allAscii_ofClock sign hour minute colon⟩,
    by rintro _ ⟨⟩; exact Zone.inRange_ofClock.2 ⟨hhour, hminute⟩,
    says_canonical order L fraction _, Zone.ahead_ofClock sign hour minute colon⟩

/-! ## Universal time -/

/-- The zones of universal time: the two marks, and the offsets of no minutes. -/
def Zone.IsUniversal (zone : Zone) : Prop :=
  zone = .universal 'Z' ∨ zone = .universal 'z' ∨ ∃ sign colon, zone = .ofClock sign 0 0 colon

/-- A zone of universal time fits. -/
theorem Zone.IsUniversal.fits {zone : Zone} (h : zone.IsUniversal) : zone.Fits := by
  rcases h with rfl | rfl | ⟨sign, colon, rfl⟩
  · exact .inl rfl
  · exact .inr rfl
  · exact fits_ofClock sign (Nat.zero_le _) (Nat.zero_le _) colon

/-- A zone of universal time leaves a local time as it is. -/
theorem Zone.IsUniversal.universalTime_eq {zone : Zone} (h : zone.IsUniversal) (L : Instant) :
    universalTime L (some zone) = .ok L := by
  rcases h with rfl | rfl | ⟨sign, colon, rfl⟩
  · rfl
  · rfl
  · have none : (ofClock sign 0 0 colon).ahead = 0 := by rw [ahead_ofClock]; cases sign <;> rfl
    refine universalTime_eq_ok_iff.2 ⟨allAscii_ofClock sign 0 0 colon, ?_, ?_⟩
    · rintro _ ⟨⟩
      exact inRange_ofClock.2 ⟨Nat.zero_le _, Nat.zero_le _⟩
    · rw [Option.map_some, Option.getD_some, none]
      omega

/-- A date with a time of day in a zone. -/
def timedForm (sign : Option Sign) (year month day : List Char) (clock : Clock)
    (zone : Option Zone) : Form :=
  .dashes sign year (.time month day { clock with zone })

/-- **The zones of universal time mean the same as no zone.** -/
theorem ofText_universal (order : SlashOrder) {sign : Option Sign} {year month day : List Char}
    {clock : Clock} (h : (timedForm sign year month day clock none).Fits) {zone : Zone}
    (hzone : zone.IsUniversal) :
    ofText order (timedForm sign year month day clock (some zone)).text =
      ofText order (timedForm sign year month day clock none).text := by
  have fits : (timedForm sign year month day clock (some zone)).Fits := by
    obtain ⟨hyear, hmonth, hday, hgap, hhour, hminute, hseconds, -⟩ := h
    exact ⟨hyear, hmonth, hday, hgap, hhour, hminute, hseconds, by rintro _ ⟨⟩; exact hzone.fits⟩
  rw [Instant.ofText_eq_instant (Form.standsIn_text fits),
    Instant.ofText_eq_instant (Form.standsIn_text h), timedForm, timedForm, Form.instant,
    Form.instant]
  -- The local time is read without a look at the zone.
  have sameTime (number : Int) :
      (Detail.time month day { clock with zone := some zone }).localTime number =
        (Detail.time month day { clock with zone := none }).localTime number := rfl
  simp only [sameTime, Detail.zone, hzone.universalTime_eq]
  rfl

end DateText

namespace Instant

open DateText (Sign IsRun WritesLocal Zone zonedText timedForm)

/-- **Offsets denote universal time.**  Every local time can be written with every offset of a
clock.  A text that writes a local time with an offset is accepted exactly if their difference lies
between the first and the last instant, and then it names the instant at the difference.  Every
accepted text writes a local time, and texts with the same difference are accepted together and name
the same instant.  The marks of universal time and an offset of no minutes mean the same as no
zone. -/
theorem ofText_offset (order : SlashOrder) :
    (∀ (L : Instant) (fraction : Option (Char × List Char)) (sign : Sign) (hour minute : Nat)
      (colon : Bool), (∀ f ∈ fraction, (f.1 = '.' ∨ f.1 = ',') ∧ IsRun f.2) → hour ≤ 23 →
      minute ≤ 59 → WritesLocal order (zonedText L fraction (.ofClock sign hour minute colon)) L
        (sign.apply (hour * 60 + minute))) ∧
    (∀ (text : String) (L : Instant) (ahead : Int), WritesLocal order text L ahead →
      (∀ t, ofText order text = .ok t ↔ t.position = L.position - 60 * ahead) ∧
      ((∃ t, ofText order text = .ok t) ↔
        earliest.position ≤ L.position - 60 * ahead ∧
          L.position - 60 * ahead ≤ latest.position)) ∧
    (∀ (text : String) (t : Instant), ofText order text = .ok t →
      ∃ L ahead, WritesLocal order text L ahead) ∧
    (∀ (text text' : String) (L L' : Instant) (ahead ahead' : Int),
      WritesLocal order text L ahead → WritesLocal order text' L' ahead' →
      L.position - 60 * ahead = L'.position - 60 * ahead' →
      ∀ t, ofText order text = .ok t ↔ ofText order text' = .ok t) ∧
    ∀ (sign : Option Sign) (year month day : List Char) (clock : DateText.Clock) (zone : Zone),
      (timedForm sign year month day clock none).Fits → zone.IsUniversal →
      ofText order (timedForm sign year month day clock (some zone)).text =
        ofText order (timedForm sign year month day clock none).text := by
  refine ⟨?_, ?_, fun _ _ => DateText.exists_writesLocal, ?_, ?_⟩
  · intro L fraction sign hour minute colon hfraction hhour hminute
    exact DateText.writesLocal_zonedText order L hfraction sign hhour hminute colon
  · intro text L ahead h
    have named (t : Instant) := DateText.ofText_eq_ok_iff_of_writes h (t := t)
    exact ⟨named, by simp only [named, exists_position_iff]⟩
  · intro text text' L L' ahead ahead' h h' same t
    rw [DateText.ofText_eq_ok_iff_of_writes h, DateText.ofText_eq_ok_iff_of_writes h', same]
  · intro sign year month day clock zone h hzone
    exact DateText.ofText_universal order h hzone

/-- The hypotheses of `ofText_offset` hold of a time that an offset takes back over the start of
year 0 and that another offset writes on the day before, of the last second with an offset behind
universal time, which is refused, and of a noon with a mark. -/
theorem ofText_offset_new_year :
    (∃ t : Instant, t.text = "-0001-12-31T23:30:00Z" ∧
      ofText .dayFirst "0000-01-01T00:30:00,5+0100" = .ok t ∧
      ofText .dayFirst "-0001-12-31T22:30:00-01:00" = .ok t) ∧
    (∀ t, ofText .dayFirst "999999999999-12-31T23:59:59-00:01" ≠ .ok t) ∧
    ofText .dayFirst "2020-02-29 12:00z" = ofText .dayFirst "2020-02-29 12:00" := by
  obtain ⟨written, named, -, same, universal⟩ := ofText_offset .dayFirst
  refine ⟨?_, ?_, ?_⟩
  · have fraction : ∀ f ∈ some (',', ['5']), (f.1 = '.' ∨ f.1 = ',') ∧ IsRun f.2 := by
      rintro _ ⟨⟩
      exact ⟨.inr rfl, by decide, List.all_eq_true.1 rfl⟩
    have ahead := written (ofReal (by decide : IsReal 0 1 1 0 30 0)) (some (',', ['5'])) .plus 1 0
      false fraction (by decide) (by decide)
    have behind := written (ofReal (by decide : IsReal (-1) 12 31 22 30 0)) none .minus 1 0
      true nofun (by decide) (by decide)
    have accepted := ((named _ _ _ ahead).1
      (ofReal (by decide : IsReal (-1) 12 31 23 30 0))).2 (by decide)
    refine ⟨_, ?_, accepted, (same _ _ _ _ _ _ ahead behind (by decide) _).1 accepted⟩
    decide +kernel
  · have behind := written latest none .minus 0 1 true nofun (by decide) (by decide)
    exact fun t ht => absurd ((named _ _ _ behind).2.1 ⟨t, ht⟩) (by decide)
  · refine universal none ['2', '0', '2', '0'] ['0', '2'] ['2', '9']
      ⟨' ', ['1', '2'], ['0', '0'], none, none⟩ (.universal 'z') ?_ (.inr (.inl rfl))
    exact ⟨⟨by decide, List.all_eq_true.1 rfl⟩, ⟨⟨by decide, List.all_eq_true.1 rfl⟩, by decide⟩,
      ⟨⟨by decide, List.all_eq_true.1 rfl⟩, by decide⟩, .inr rfl, ⟨rfl, List.all_eq_true.1 rfl⟩,
      ⟨rfl, List.all_eq_true.1 rfl⟩, nofun, nofun⟩

end Instant
end DateFacet
