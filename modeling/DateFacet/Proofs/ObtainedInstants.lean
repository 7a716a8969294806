/-
# Which instants can be obtained

An `Instant` is real by its type.  A machine has only six numbers, and some operations put them
together without a look at the calendar: the ends of a day and of a year, the times of a clock, and
what a step leaves of a number that does not fit.

| operation | looks at the calendar |
| --- | --- |
| six fields, a count of seconds, a shift by minutes | yes, with `Machine.check` at the end |
| a date text, a stored instant | yes, with `Machine.check` and perhaps a shift |
| the ends of a day and of a year | no |
| a day or a time of a clock | no |

`Fields.Obtained` says that fields come out of some chain of these operations.  Whatever the machine
does where numbers do not fit, they are then the fields of an instant, and the fields of every
instant are obtained (`Fields.obtained_iff`).

A machine finds the size of a year before it compares it, so the one year of 64 bits whose size has
more is left out; a machine that wraps around takes it for a small one.
-/

import DateFacet.Proofs.DateMeaning
import DateFacet.Proofs.Timekeeping
import DateFacet.Stored

namespace DateFacet

open DateText (Detail Form Zone partNumber secondNumber yearNumber)
open Instant (Fault Fits64 maxYear)
open Json (Reading)

/-! ## The ends of a day and of a year -/

namespace Fields

/-- Midnight of the same day. -/
def startOfDay (f : Fields) : Fields := { f with hour := 0, minute := 0, second := 0 }

/-- The last second of the same day. -/
def endOfDay (f : Fields) : Fields := { f with hour := 23, minute := 59, second := 59 }

/-- The second after midnight on January 1st of the same year. -/
def startOfYear (f : Fields) : Fields := ⟨f.year, 1, 1, 0, 0, 1⟩

/-- The last second of the same year. -/
def endOfYear (f : Fields) : Fields := ⟨f.year, 12, 31, 23, 59, 59⟩

namespace IsReal

variable {f : Fields} (h : f.IsReal)

include h

/-! The ends are those of an instant, which has the proofs that they are real. -/

/-- The start of a real day is real. -/
theorem startOfDay : f.startOfDay.IsReal := by
  obtain ⟨t, rfl⟩ := h.exists_instant
  exact t.startOfDay.isReal_fields

/-- The end of a real day is real. -/
theorem endOfDay : f.endOfDay.IsReal := by
  obtain ⟨t, rfl⟩ := h.exists_instant
  exact t.endOfDay.isReal_fields

/-- Every year has a first day, so its start is real. -/
theorem startOfYear : f.startOfYear.IsReal := by
  obtain ⟨t, rfl⟩ := h.exists_instant
  exact t.startOfYear.isReal_fields

/-- Every year has a last day, so its end is real. -/
theorem endOfYear : f.endOfYear.IsReal := by
  obtain ⟨t, rfl⟩ := h.exists_instant
  exact t.endOfYear.isReal_fields

end IsReal
end Fields

/-! ## The numbers of a date text -/

/-- The check of six fields. -/
def Instant.ofNumbers (f : Fields) : Except Fault Instant :=
  ofFields f.year f.month f.day f.hour f.minute f.second

namespace DateText

/-- The numbers after a year; what is missing is the first month or day, or midnight. -/
def Detail.numbers (year : Int) : Detail → Except Fault Fields
  | .year => .ok ⟨year, 1, 1, 0, 0, 0⟩
  | .month m => do return ⟨year, ← partNumber .month m, 1, 0, 0, 0⟩
  | .day m d => do
    let month ← partNumber .month m
    let day ← partNumber .day d
    return ⟨year, month, day, 0, 0, 0⟩
  | .time m d clock => do
    let month ← partNumber .month m
    let day ← partNumber .day d
    let hour ← partNumber .hour clock.hour
    let minute ← partNumber .minute clock.minute
    let second ← secondNumber clock.seconds
    return ⟨year, month, day, hour, minute, second⟩

/-- The numbers of a form, without its zone. -/
def Form.numbers (order : SlashOrder) : Form → Except Fault Fields
  | .dashes sign y detail => do detail.numbers (← yearNumber sign y)
  | .slashes a b sign y => do
    let year ← yearNumber sign y
    let first ← partNumber .beforeFirstSlash a
    let second ← partNumber .betweenSlashes b
    return match order with
      | .dayFirst => ⟨year, second, first, 0, 0, 0⟩
      | .monthFirst => ⟨year, first, second, 0, 0, 0⟩

/-- Local time is the check of the numbers. -/
theorem Detail.localTime_eq (detail : Detail) (year : Int) :
    detail.localTime year = detail.numbers year >>= Instant.ofNumbers := by
  cases detail with
  | year => rfl
  | month m => simp only [localTime, numbers, bind_assoc, pure_bind]; rfl
  | day m d => simp only [localTime, numbers, bind_assoc, pure_bind]; rfl
  | time m d clock => simp only [localTime, numbers, bind_assoc, pure_bind]; rfl

/-- **All numbers of a form are read first, then checked, and the zone is taken away last.** -/
theorem Form.instant_eq (form : Form) (order : SlashOrder) : form.instant order =
    form.numbers order >>= fun f => Instant.ofNumbers f >>= fun t => universalTime t form.zone := by
  cases form with
  | dashes sign y detail => simp only [instant, numbers, Detail.localTime_eq, bind_assoc]; rfl
  | slashes a b sign y =>
    simp only [instant, numbers, bind_assoc, pure_bind]
    cases order <;> exact bind_congr fun _ => bind_congr fun _ => bind_congr fun _ =>
      (bind_pure _).symm

/-- The numbers after a year leave it as it is. -/
theorem Detail.year_of_numbers {detail : Detail} {year : Int} {f : Fields}
    (h : detail.numbers year = .ok f) : f.year = year := by
  cases detail with
  | year =>
    obtain rfl := Except.ok.inj h
    rfl
  | month m =>
    obtain ⟨-, rest⟩ := partNumber_bind_eq_ok_iff.1 h
    obtain rfl := Except.ok.inj rest
    rfl
  | day m d =>
    simp only [numbers, partNumber_bind_eq_ok_iff] at h
    obtain ⟨-, -, rest⟩ := h
    obtain rfl := Except.ok.inj rest
    rfl
  | time m d clock =>
    simp only [numbers, partNumber_bind_eq_ok_iff, secondNumber_bind_eq_ok_iff] at h
    obtain ⟨-, -, -, -, -, rest⟩ := h
    obtain rfl := Except.ok.inj rest
    rfl

/-- The year of a form is one of an instant. -/
theorem Form.year_le_of_numbers {form : Form} {order : SlashOrder} {f : Fields}
    (h : form.numbers order = .ok f) : f.year.natAbs ≤ maxYear := by
  cases form with
  | dashes sign y detail =>
    obtain ⟨-, small, rest⟩ := yearNumber_bind_eq_ok_iff.1 h
    rwa [Detail.year_of_numbers rest]
  | slashes a b sign y =>
    obtain ⟨-, small, rest⟩ := yearNumber_bind_eq_ok_iff.1 h
    simp only [partNumber_bind_eq_ok_iff] at rest
    obtain ⟨-, -, rest⟩ := rest
    obtain rfl := Except.ok.inj rest
    cases order <;> exact small

end DateText

/-! ## Date texts on a machine -/

namespace Machine

variable {m : Machine}

/-- Universal time from local time and the zone. -/
def universalTime (m : Machine) (f : Fields) : Option Zone → ExceptT Fault Option Fields
  | some (.offset sign hour colon minute) => do
    let ahead ← (Zone.offset sign hour colon minute).minutesAhead
    .mk (m.shift f (-ahead))
  | _ => pure f

/-- The fields that a form names. -/
def ofForm (m : Machine) (order : SlashOrder) (form : Form) : ExceptT Fault Option Fields := do
  let f ← form.numbers order
  let f ← ExceptT.mk (m.check f)
  m.universalTime f form.zone

/-- The fields that a text names. -/
def ofText (m : Machine) (order : SlashOrder) (text : String) : ExceptT Fault Option Fields :=
  let cs := Text.trimChars text.toList
  if cs.isEmpty then throw .emptyText
  else match DateText.scan cs with
    | some form => m.ofForm order form
    | none => throw (.unrecognised (String.ofList cs))

/-- The fields of a stored instant. -/
def ofReading (m : Machine) (r : Reading) : ExceptT DecodeError Option Fields := do
  let text ← r.asString
  (m.ofText .dayFirst text).adapt fun fault => .validation (.invalidInstant fault)

/-- What goes on from an exact result is exact, if it is exact from every instant. -/
theorem bind_exact {ε : Type} {x : ExceptT ε Option Fields} {a : Except ε Instant}
    {g : Fields → ExceptT ε Option Fields} {h : Instant → Except ε Instant}
    (exact : x.run = some (Instant.fields <$> a))
    (goesOn : ∀ t, (g t.fields).run = some (Instant.fields <$> h t)) :
    (x >>= g).run = some (Instant.fields <$> (a >>= h)) := by
  rw [ExceptT.run_bind, exact]
  cases a with
  | error => rfl
  | ok t => exact goesOn t

/-- A machine takes the zone off a local time exactly. -/
theorem universalTime_exact (t : Instant) (zone : Option Zone) :
    (m.universalTime t.fields zone).run =
      some (Instant.fields <$> DateText.universalTime t zone) := by
  match zone with
  | none => rfl
  | some (.universal mark) => rfl
  | some (.offset sign hour colon minute) =>
    rw [universalTime, DateText.universalTime]
    cases (Zone.offset sign hour colon minute).minutesAhead with
    | error fault => rfl
    | ok ahead => exact shift_exact t (-ahead)

/-- A machine takes a form for the instant that it means, and refuses the same forms. -/
theorem ofForm_exact (order : SlashOrder) (form : Form) :
    (m.ofForm order form).run = some (Instant.fields <$> form.instant order) := by
  rw [ofForm, form.instant_eq]
  cases numbers : form.numbers order with
  | error fault => rfl
  | ok f =>
    have year := Form.year_le_of_numbers numbers
    have checked : (ExceptT.mk (m.check f)).run = some (Instant.fields <$> Instant.ofNumbers f) :=
      check_exact (by unfold maxYear at year; omega)
    exact bind_exact (g := (m.universalTime · form.zone)) checked (universalTime_exact · form.zone)

/-- **Every machine reads the instant of a text.** -/
theorem ofText_exact (order : SlashOrder) (text : String) :
    (m.ofText order text).run = some (Instant.fields <$> Instant.ofText order text) := by
  rw [ofText, Instant.ofText, DateText.instantOfChars]
  split
  · rfl
  · cases DateText.scan (Text.trimChars text.toList) with
    | none => rfl
    | some form => exact ofForm_exact order form

/-- **Every machine reads a stored instant.** -/
theorem ofReading_exact (r : Reading) :
    (m.ofReading r).run = some (Instant.fields <$> Instant.ofReading r) := by
  rw [ofReading, Instant.ofReading]
  cases r.asString with
  | error fault => rfl
  | ok text =>
    change (m.ofText .dayFirst text).run.map _ =
      some (Instant.fields <$> (Instant.ofText .dayFirst text).mapError _)
    rw [ofText_exact]
    cases Instant.ofText .dayFirst text <;> rfl

end Machine

/-! ## What exact steps and valid clocks give -/

section

variable {m : Machine} {k : Timekeeper} {g : Fields}

/-- What an exact step gives is real. -/
theorem Machine.isReal_of_exact {ε : Type} {x : Option (Except ε Fields)} {a : Except ε Instant}
    (exact : x = some (Instant.fields <$> a)) (step : x = some (.ok g)) : g.IsReal := by
  obtain ⟨t, -, rfl⟩ := Outcome.map_eq_ok_iff.1 (Option.some.inj (exact.symm.trans step))
  exact t.isReal_fields

namespace Timekeeper.IsValid

variable (h : k.IsValid)

include h

/-- The midnight of a day of the calendar is real, on any machine that goes on. -/
theorem isReal_midnight {d : k.Day} (step : k.midnight m d = some g) : g.IsReal := by
  obtain ⟨hasYear, real⟩ := h.day_real d
  rw [h.midnight_eq] at step
  cases step
  exact ⟨ClockTime.year_le hasYear, ⟨real.1, real.2.1⟩, real.2.2, Nat.zero_le _, Nat.zero_le _,
    Nat.zero_le _⟩

/-- A time of the clock has real fields, on any machine that goes on. -/
theorem isReal_toFields {x : k.Time} (step : k.toFields m x = some g) : g.IsReal := by
  obtain ⟨hasYear, real, hour, minute⟩ := h.time_real x
  rw [h.toFields_eq] at step
  cases step
  exact ⟨ClockTime.year_le hasYear, ⟨real.1, real.2.1⟩, real.2.2, hour, minute, Nat.min_le_right _ _⟩

end Timekeeper.IsValid

end

/-! ## Chains of operations -/

namespace Fields

/-- The fields come out of a chain of operations on a machine, with a clock for some of them. -/
inductive Obtained (m : Machine) (k : Timekeeper) : Fields → Prop
  /-- Fields that are checked; a date alone is checked with midnight. -/
  | checked {f g : Fields} (fits : Fits64 f.year) (notLeast : f.year ≠ -9223372036854775808)
      (step : m.check f = some (.ok g)) : Obtained m k g
  /-- The fields at a count of seconds. -/
  | counted {seconds : Int} {g : Fields} (fits : Fits64 seconds)
      (step : m.ofSeconds seconds = some (.ok g)) : Obtained m k g
  /-- A shift by minutes. -/
  | shifted {f g : Fields} {minutes : Int} (before : Obtained m k f)
      (step : m.shift f minutes = some (.ok g)) : Obtained m k g
  | startOfDay {f : Fields} (before : Obtained m k f) : Obtained m k f.startOfDay
  | endOfDay {f : Fields} (before : Obtained m k f) : Obtained m k f.endOfDay
  | startOfYear {f : Fields} (before : Obtained m k f) : Obtained m k f.startOfYear
  | endOfYear {f : Fields} (before : Obtained m k f) : Obtained m k f.endOfYear
  /-- The fields that a text names, in either order. -/
  | written {order : SlashOrder} {text : String} {g : Fields}
      (step : (m.ofText order text).run = some (.ok g)) : Obtained m k g
  /-- The fields of a stored instant, in whatever JSON it is found. -/
  | stored {r : Reading} {g : Fields} (step : (m.ofReading r).run = some (.ok g)) :
      Obtained m k g
  /-- Midnight of a clock's day. -/
  | ofDay {g : Fields} (d : k.Day) (step : k.midnight m d = some g) : Obtained m k g
  /-- The parts of a clock's time. -/
  | ofTime {g : Fields} (x : k.Time) (step : k.toFields m x = some g) : Obtained m k g

variable {m : Machine} {k : Timekeeper} {f : Fields}

/-- The size of a year of 64 bits has 64 bits, but for the least year. -/
theorem natAbs_le_of_fits64 {year : Int} (fits : Fits64 year)
    (notLeast : year ≠ -9223372036854775808) : year.natAbs ≤ 9223372036854775807 := by
  unfold Fits64 at fits
  omega

/-- Real fields pass the check. -/
theorem Obtained.of_isReal (real : f.IsReal) : Obtained m k f := by
  have year : f.year.natAbs ≤ 999999999999 := real.1
  obtain ⟨t, rfl⟩ := real.exists_instant
  refine .checked (f := t.fields) ⟨by omega, by omega⟩ (by omega) ?_
  rw [Machine.check_exact (by omega)]
  exact congrArg (some <| Instant.fields <$> ·) t.ofFields_self

/-- **Exactly the real fields are obtained**, on every machine and from every clock whose days and
times are real.  So the fields that come out of any chain of operations are those of an instant: its
year is of at most twelve digits, its month and its day are on the calendar, and its hour, minute and
second on the face of a clock. -/
theorem obtained_iff (h : k.IsValid) : Obtained m k f ↔ f.IsReal := by
  refine ⟨fun obtained => ?_, Obtained.of_isReal⟩
  -- One case for each operation.  A shift and the ends need that what they start from is real.
  induction obtained with
  | checked fits notLeast step =>
    exact Machine.isReal_of_exact (Machine.check_exact (natAbs_le_of_fits64 fits notLeast)) step
  | counted fits step => exact Machine.isReal_of_exact (Machine.ofSeconds_exact fits) step
  | shifted _ step ih =>
    obtain ⟨t, rfl⟩ := ih.exists_instant
    exact Machine.isReal_of_exact (Machine.shift_exact t _) step
  | startOfDay _ ih => exact ih.startOfDay
  | endOfDay _ ih => exact ih.endOfDay
  | startOfYear _ ih => exact ih.startOfYear
  | endOfYear _ ih => exact ih.endOfYear
  | written step => exact Machine.isReal_of_exact (Machine.ofText_exact _ _) step
  | stored step => exact Machine.isReal_of_exact (Machine.ofReading_exact _) step
  | ofDay _ step => exact h.isReal_midnight step
  | ofTime _ step => exact h.isReal_toFields step

/-- The hypothesis of `obtained_iff` holds of the clock of this library.  A machine that wraps around
obtains the last day of 1970 from the leap second that 1969 might have ended with, by way of the
minute after; and whatever it does, it does not obtain February 29th of 2021. -/
theorem obtained_iff_leap_second :
    ClockTime.keeper.IsValid ∧ Obtained .wrapping ClockTime.keeper ⟨1970, 12, 31, 0, 0, 0⟩ ∧
      IsReal ⟨1970, 12, 31, 0, 0, 0⟩ ∧
      ¬ Obtained .wrapping ClockTime.keeper ⟨2021, 2, 29, 0, 0, 0⟩ := by
  have valid := ClockTime.keeper_isGregorian.toIsValid
  have leap : Obtained .wrapping ClockTime.keeper ⟨1969, 12, 31, 23, 59, 59⟩ :=
    .ofTime ClockTime.leapSecond (ClockTime.keeper_toFields _ _)
  have minuteAfter : Obtained .wrapping ClockTime.keeper ⟨1970, 1, 1, 0, 0, 59⟩ :=
    .shifted leap (rfl : Machine.wrapping.shift _ 1 = _)
  have lastDay : Obtained .wrapping ClockTime.keeper ⟨1970, 12, 31, 0, 0, 0⟩ :=
    minuteAfter.endOfYear.startOfDay
  exact ⟨valid, lastDay, (obtained_iff valid).1 lastDay,
    fun obtained => absurd ((obtained_iff valid).1 obtained) (by decide)⟩

/-- The one year that is left out passes the check of a machine that wraps around. -/
example : Machine.wrapping.check ⟨-9223372036854775808, 1, 1, 0, 0, 0⟩ =
    some (.ok ⟨-9223372036854775808, 1, 1, 0, 0, 0⟩) := rfl

end Fields
end DateFacet
