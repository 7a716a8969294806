/-
# Labels are dates again

A side of a range is labelled with the day or with the year of what was typed, and the label is a
written date of its own:

| label | form | what it names |
| --- | --- | --- |
| year | dashes, after the year nothing | January 1st |
| ISO day | dashes, the year with at least four digits | the day |
| day/month/year, month/day/year | slashes | the day, if it is read in the same order |

The time of day is lost, and at year granularity the month and the day as well.  But a label names
the midnight with which the day or the year of the side begins (`ofText_label`), and to the reader
this midnight is as good as what was typed: it has the same first and last second and the same
label.  Midnights are in the order of what was typed, so both labels of a range, typed into the
reader that gave it, give the range once more (`range_labels`).
-/

import DateFacet.Proofs.Offsets
import DateFacet.Proofs.RangeOutcome
import DateFacet.Proofs.Retyping

namespace DateFacet

open DateText (AllAscii Canonical Detail Form IsRun IsShort WritesLocal allAscii_cons
  allAscii_singleton signChars signedValue year_eq_signedValue)
open Text (digitsValue numeral padded signedNumeral)

/-- A numeral is a run of digits. -/
theorem Text.isRun_numeral (n : Nat) : IsRun (numeral n) :=
  ⟨numeral_ne_nil n, fun _ hc => isDecimal_of_isDigit (isDigit_of_mem_numeral hc)⟩

namespace Instant

variable (t : Instant)

/-! ## The form of a label -/

/-- The year of a canonical text has a minus sign if the instant is negative. -/
theorem signChars_sign : signChars t.canonical.sign = if t.isNegative then ['-'] else [] := by
  have negative : t.canonical.negative = t.isNegative := rfl
  rw [Canonical.sign, negative]
  split <;> rfl

/-- The year without zeros in front, with its sign. -/
theorem signedNumeral_year :
    signedNumeral t.year = signChars t.canonical.sign ++ numeral t.year.natAbs := by
  rw [signChars_sign, isNegative, signedNumeral]
  by_cases early : t.year < 0
  · simp [early]
  · simp [early]

/-- A year label as a written date. -/
def yearForm : Form := .dashes t.canonical.sign (numeral t.year.natAbs) .year

/-- No second of a day has passed at its start. -/
theorem secondOfDay_startOfDay : t.startOfDay.secondOfDay = 0 := by
  simp [secondOfDay, startOfDay, midnight]

end Instant

/-- A day label as a written date. -/
def DayLabel.form (label : DayLabel) (t : Instant) : Form :=
  match label with
  | .iso => .dashes t.canonical.sign (padded 4 t.year.natAbs)
      (.day (padded 2 t.month) (padded 2 t.day))
  | .dayMonthYear => .slashes (padded 2 t.day) (padded 2 t.month) t.canonical.sign
      (numeral t.year.natAbs)
  | .monthDayYear => .slashes (padded 2 t.month) (padded 2 t.day) t.canonical.sign
      (numeral t.year.natAbs)

/-- A form with slashes has the day and the month in the order in which they are read. -/
def DayLabel.AgreesWith (order : SlashOrder) : DayLabel → Prop
  | .iso => True
  | .dayMonthYear => order = .dayFirst
  | .monthDayYear => order = .monthFirst

/-! ## What a label names -/

namespace DayLabel

/-- The form of a day label is written as the label is. -/
theorem text_form (label : DayLabel) (t : Instant) : (label.form t).text = label.text t := by
  rw [Form.text, DayLabel.text]
  cases label <;>
    simp [form, chars, Form.chars, Detail.chars, Instant.dateChars, Instant.yearChars,
      Instant.signChars_sign, Instant.signedNumeral_year]

/-- The form of a day label fits. -/
theorem fits_form (label : DayLabel) (t : Instant) : (label.form t).Fits := by
  have month : IsShort (padded 2 t.month) := t.canonical.isShort (by simp [Instant.canonical])
  have day : IsShort (padded 2 t.day) := t.canonical.isShort (by simp [Instant.canonical])
  cases label with
  | iso => exact ⟨t.canonical.isRun_year, month, day⟩
  | dayMonthYear => exact ⟨day, month, Text.isRun_numeral _⟩
  | monthDayYear => exact ⟨month, day, Text.isRun_numeral _⟩

/-- The form of a day label has ASCII digits. -/
theorem allAscii_form (label : DayLabel) (t : Instant) : AllAscii (label.form t).fields := by
  have pad (width n : Nat) : ∀ c ∈ padded width n, c.isDigit = true :=
    fun _ hc => Text.isDigit_of_mem_padded hc
  have year : ∀ c ∈ numeral t.year.natAbs, c.isDigit = true :=
    fun _ hc => Text.isDigit_of_mem_numeral hc
  cases label with
  | iso =>
    exact allAscii_cons.2 ⟨pad 4 _, allAscii_cons.2 ⟨pad 2 _, allAscii_singleton.2 (pad 2 _)⟩⟩
  | dayMonthYear | monthDayYear =>
    exact allAscii_cons.2 ⟨pad 2 _, allAscii_cons.2 ⟨pad 2 _, allAscii_singleton.2 year⟩⟩

/-- A day label says the start of its day, where its order is the one of the reader. -/
theorem says_form {order : SlashOrder} {label : DayLabel} (h : label.AgreesWith order)
    (t : Instant) : (label.form t).Says order t.startOfDay := by
  have year {digits : List Char} (value : digitsValue digits = t.year.natAbs) :
      t.startOfDay.year = signedValue t.canonical.sign digits :=
    year_eq_signedValue t value
  have month : t.startOfDay.month = digitsValue (padded 2 t.month) :=
    (Text.digitsValue_padded 2 t.month).symm
  have day : t.startOfDay.day = digitsValue (padded 2 t.day) :=
    (Text.digitsValue_padded 2 t.day).symm
  cases label with
  | iso => exact ⟨year (Text.digitsValue_padded 4 _), month, day, t.secondOfDay_startOfDay⟩
  | dayMonthYear =>
    obtain rfl : order = .dayFirst := h
    exact ⟨year (Text.digitsValue_numeral _), t.secondOfDay_startOfDay, day, month⟩
  | monthDayYear =>
    obtain rfl : order = .monthFirst := h
    exact ⟨year (Text.digitsValue_numeral _), t.secondOfDay_startOfDay, month, day⟩

/-- **A day label writes the midnight of its day**, if it is read in the order in which it is
written. -/
theorem writesLocal_text {order : SlashOrder} {label : DayLabel} (h : label.AgreesWith order)
    (t : Instant) : WritesLocal order (label.text t) t.startOfDay 0 := by
  have stands : (label.form t).StandsIn (label.text t) := by
    rw [← label.text_form]
    exact Form.standsIn_text (label.fits_form t)
  refine ⟨label.form t, stands, label.allAscii_form t, ?_, says_form h t, ?_⟩
  · cases label <;> rintro _ ⟨⟩
  · cases label <;> rfl

end DayLabel

/-- **A year label writes the midnight of January 1st**, in either order of dates with slashes. -/
theorem Instant.writesLocal_yearLabel (order : SlashOrder) (t : Instant) :
    WritesLocal order (yearLabel t) t.startOfYear.startOfDay 0 := by
  have fits : t.yearForm.Fits := ⟨Text.isRun_numeral _, trivial⟩
  have stands : t.yearForm.StandsIn (yearLabel t) := by
    rw [yearLabel, signedNumeral_year, ← List.append_nil (_ ++ _)]
    exact Form.standsIn_text fits
  have ascii : AllAscii t.yearForm.fields :=
    allAscii_singleton.2 fun _ hc => Text.isDigit_of_mem_numeral hc
  have said : t.yearForm.Says order t.startOfYear.startOfDay :=
    ⟨year_eq_signedValue t (Text.digitsValue_numeral _), rfl, rfl,
      t.startOfYear.secondOfDay_startOfDay⟩
  exact ⟨t.yearForm, stands, ascii, by rintro _ ⟨⟩, said, rfl⟩

namespace RangeReader

variable {reader : RangeReader}

/-- Labels of days are read in the order in which they are written; those of years have none. -/
def ReadsLabels (reader : RangeReader) : Prop :=
  reader.granularity = .day → reader.dayLabel.AgreesWith reader.slashes

/-- The midnight with which the day or the year of an instant begins. -/
def midnightOf (reader : RangeReader) (t : Instant) : Instant := (reader.widenStart t).startOfDay

/-- **A label names the midnight** with which the day or the year of its side begins. -/
theorem ofText_label (h : reader.ReadsLabels) (t : Instant) :
    Instant.ofText reader.slashes (reader.label t) = .ok (reader.midnightOf t) := by
  have writes : WritesLocal reader.slashes (reader.label t) (reader.midnightOf t) 0 := by
    unfold ReadsLabels at h
    unfold midnightOf widenStart label
    cases granularity : reader.granularity with
    | day => exact DayLabel.writesLocal_text (h granularity) t
    | year => exact t.writesLocal_yearLabel reader.slashes
  rw [DateText.ofText_eq_ok_iff_of_writes writes, Instant.position_eq_sub_zero]

/-! ## A midnight in place of what was typed -/

/-- The midnights of instants are in the order of the instants. -/
theorem midnightOf_le_midnightOf {s e : Instant} (h : s ≤ e) :
    reader.midnightOf s ≤ reader.midnightOf e := by
  rw [Instant.le_iff_not_lt, Instant.lt_iff] at h ⊢
  unfold midnightOf widenStart
  cases reader.granularity with
  | day =>
    simp only [Instant.startOfDay, Instant.midnight]
    omega
  | year =>
    simp only [Instant.startOfYear, Instant.startOfDay, Instant.midnight]
    omega

/-- The midnight of an instant is widened to the same start. -/
theorem widenStart_midnightOf (t : Instant) :
    reader.widenStart (reader.midnightOf t) = reader.widenStart t := by
  unfold midnightOf widenStart
  cases reader.granularity <;> rfl

/-- The midnight of an instant is widened to the same stop. -/
theorem widenStop_midnightOf (t : Instant) :
    reader.widenStop (reader.midnightOf t) = reader.widenStop t := by
  unfold midnightOf widenStart widenStop
  cases reader.granularity <;> rfl

/-- The midnight of an instant has the same label. -/
theorem label_midnightOf (t : Instant) : reader.label (reader.midnightOf t) = reader.label t := by
  unfold midnightOf widenStart label
  cases reader.granularity with
  | year => rfl
  | day => cases reader.dayLabel <;> rfl

/-- The label of a side is read as its midnight, and the empty label as no date. -/
theorem readSide_label (h : reader.ReadsLabels) (date : Option Instant) :
    reader.readSide (some ((date.map reader.label).getD "")) = date.map reader.midnightOf := by
  cases date with
  | none => rfl
  | some t =>
    simp only [Option.map_some, Option.getD_some, readSide_eq_bind, Option.bind_some, ofText_label h,
      Except.toOption]

/-- **A range that was read is read again from its own labels.**  The label of a side is empty
exactly if the side is open.  A reader of years, whatever its day labels, and a reader of days whose
labels are ISO days or have slashes in the order in which it reads them, gives for the two labels of
a range that it gave, whatever was typed, the same range with the same labels.  The ISO day of an
instant is what stands in its text before the `T`. -/
theorem range_labels (reader : RangeReader) :
    (∀ input r, reader.range input = .ok r →
      (r.startLabel = "" ↔ r.start = none) ∧ (r.stopLabel = "" ↔ r.stop = none) ∧
        (reader.ReadsLabels → reader.range ⟨some r.startLabel, some r.stopLabel⟩ = .ok r)) ∧
    ∀ t : Instant, ∃ time : String, t.text = DayLabel.iso.text t ++ "T" ++ time ∧
      'T' ∉ (DayLabel.iso.text t).toList := by
  refine ⟨fun input r h => ?_, fun t => ?_⟩
  · obtain ⟨⟨start, startLabel⟩, stop, stopLabel⟩ := open_iff_of_range h
    refine ⟨startLabel.trans start.symm, stopLabel.trans stop.symm, fun reads => ?_⟩
    obtain ⟨first, last⟩ := labels_of_range h
    obtain ⟨window, checked⟩ := range_eq_ok_iff.1 h
    rw [range_eq_ok_iff, first, last, readSide_label reads, readSide_label reads,
      reader.checkWidened_map widenStart_midnightOf label_midnightOf widenStop_midnightOf
        label_midnightOf]
    exact ⟨window.map fun _ _ => midnightOf_le_midnightOf, checked⟩
  · refine ⟨String.ofList (t.timeChars ++ ['Z']), String.toList_injective ?_, ?_⟩
    · simp [DayLabel.text, DayLabel.chars, Instant.chars]
    · rw [DayLabel.text, String.toList_ofList]
      exact t.notMem_dateChars (by decide) (by decide)

/-- The hypotheses of `range_labels` hold of half an hour before a midnight of year -44, in a zone
behind universal time and so on the day after, in a reader that has the month first in its labels as
in its dates with slashes. -/
theorem range_labels_ides :
    ∃ r, (⟨.day, .monthFirst, .monthDayYear⟩ : RangeReader).range
        ⟨some "-44-03-15T23:30-01:00", none⟩ = .ok r ∧
      r.startLabel = "03/16/-44" ∧ r.stopLabel = "" ∧
      (⟨.day, .monthFirst, .monthDayYear⟩ : RangeReader).range ⟨some "03/16/-44", some ""⟩ =
        .ok r := by
  let reader : RangeReader := ⟨.day, .monthFirst, .monthDayYear⟩
  have start : reader.readSide (some "-44-03-15T23:30-01:00") =
      some (.ofReal (by decide : Instant.IsReal (-44) 3 16 0 30 0)) := by decide +kernel
  have read := @range_of_isWindow reader ⟨some "-44-03-15T23:30-01:00", none⟩ _ none start rfl
    ⟨Range.bounded_start _, Range.ordered_start _⟩
  have startLabel : reader.label (.ofReal (by decide : Instant.IsReal (-44) 3 16 0 30 0)) =
      "03/16/-44" := by decide +kernel
  have again := ((range_labels reader).1 _ _ read).2.2 fun _ => rfl
  refine ⟨_, read, startLabel, rfl, ?_⟩
  rw [← startLabel]
  exact again

/-- With the day first in its labels, the same reader takes them for other days. -/
example : (⟨.day, .monthFirst, .dayMonthYear⟩ : RangeReader).range ⟨some "2020-01-02", none⟩ ≠
    (⟨.day, .monthFirst, .dayMonthYear⟩ : RangeReader).range ⟨some "02/01/2020", none⟩ := by
  decide +kernel

end RangeReader
end DateFacet
