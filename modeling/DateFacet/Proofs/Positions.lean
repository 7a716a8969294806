/-
# The line of seconds and its two ends

The line of seconds is the order of instants: of two instants the earlier one has the smaller
place (`position_lt_iff`), and no two share a place (`position_inj`).  Instants stop at the years
`-maxYear` and `maxYear`.  Between the first second of the one and the last second of the other
there is one at every place (`exists_position_iff`), and `ofSeconds` finds it there and nowhere
else (`ofSeconds_eq_ok_iff`, `ofSeconds_eq_error`).
-/

import DateFacet.Proofs.Chronology
import DateFacet.Proofs.DayOrder

namespace DateFacet
namespace Instant

open Calendar (civilOfDay dayNumber)

variable {a b : Instant} {p : Int}

/-! ## The order of places -/

/-- The day of an instant is one of the calendar. -/
theorem exists_date (t : Instant) : Calendar.Exists t.date :=
  ⟨t.month_mem.1, t.month_mem.2, t.day_mem⟩

/-- An earlier day has an earlier date. -/
theorem daysSinceEpoch_lt_iff : a.daysSinceEpoch < b.daysSinceEpoch ↔ a.date < b.date :=
  Calendar.dayNumber_lt_iff a.exists_date b.exists_date

/-- An earlier or the same day has no later date. -/
theorem daysSinceEpoch_le_iff : a.daysSinceEpoch ≤ b.daysSinceEpoch ↔ ¬ b.date < a.date := by
  rw [← not_lt, daysSinceEpoch_lt_iff]

/-- The same day has the same date. -/
theorem daysSinceEpoch_inj : a.daysSinceEpoch = b.daysSinceEpoch ↔ a.date = b.date := by
  refine ⟨fun h => ?_, fun h => congrArg dayNumber h⟩
  rw [← Calendar.civilOfDay_dayNumber a.exists_date, ← Calendar.civilOfDay_dayNumber b.exists_date]
  exact congrArg civilOfDay h

/-- Instants are in the order of their days, and on one day in that of their seconds. -/
theorem lt_iff_date :
    a < b ↔ a.date < b.date ∨ a.date = b.date ∧ a.secondOfDay < b.secondOfDay := by
  have := a.minute_le
  have := a.second_le
  have := b.minute_le
  have := b.second_le
  rw [lt_iff, CivilDate.lt_iff]
  simp only [date, secondOfDay, CivilDate.mk.injEq]
  omega

/-- **The earlier instant has the smaller place.** -/
theorem position_lt_iff : a.position < b.position ↔ a < b := by
  have first := a.secondOfDay_lt
  have second := b.secondOfDay_lt
  rw [lt_iff_date, ← daysSinceEpoch_lt_iff, ← daysSinceEpoch_inj, position, position]
  omega

/-- The order of instants is the order of their positions. -/
theorem position_le_iff : a.position ≤ b.position ↔ a ≤ b := by
  rw [← not_lt, ← not_lt, position_lt_iff]

/-- **No two instants share a place.** -/
theorem position_inj : a.position = b.position ↔ a = b := by
  rw [le_antisymm_iff, position_le_iff, position_le_iff, ← le_antisymm_iff]

/-- An instant that is away from another by nothing is the other. -/
theorem position_eq_sub_zero : a.position = b.position - 60 * 0 ↔ b = a := by
  rw [Int.mul_zero, Int.sub_zero, position_inj, eq_comm]

/-! ## The places of instants -/

/-- The first instant. -/
def earliest : Instant :=
  ofReal (by decide : IsReal (-maxYear) 1 1 0 0 0)

/-- The last instant. -/
def latest : Instant :=
  ofReal (by decide : IsReal maxYear 12 31 23 59 59)

/-- No instant is before the first second of the least year. -/
theorem earliest_le (t : Instant) : earliest ≤ t := by
  have := t.isReal
  rw [le_iff_not_lt, lt_iff]
  simp only [earliest, ofReal, IsReal, maxYear] at *
  omega

/-- No instant is after the last second of the greatest year. -/
theorem le_latest (t : Instant) : t ≤ latest := by
  have lastDay := Calendar.daysInMonth_le t.year t.month
  have := t.isReal
  rw [le_iff_not_lt, lt_iff]
  simp only [latest, ofReal, IsReal, maxYear] at *
  omega

/-- A day between the first and the last one has a year of an instant. -/
theorem year_le_of_daysSinceEpoch {day : Int} (first : earliest.daysSinceEpoch ≤ day)
    (last : day ≤ latest.daysSinceEpoch) : (civilOfDay day).year.natAbs ≤ maxYear := by
  have date := Calendar.exists_civilOfDay day
  have notBefore : ¬ civilOfDay day < earliest.date := by
    rw [← Calendar.dayNumber_lt_iff date earliest.exists_date, Calendar.dayNumber_civilOfDay]
    exact not_lt.2 first
  have notAfter : ¬ latest.date < civilOfDay day := by
    rw [← Calendar.dayNumber_lt_iff latest.exists_date date, Calendar.dayNumber_civilOfDay]
    exact not_lt.2 last
  rw [CivilDate.lt_iff] at notBefore notAfter
  simp only [earliest, latest, ofReal, Instant.date] at notBefore notAfter
  omega

/-- **Which places are those of an instant**: all from the first instant to the last. -/
theorem exists_position_iff :
    (∃ t : Instant, t.position = p) ↔ earliest.position ≤ p ∧ p ≤ latest.position := by
  constructor
  · rintro ⟨t, rfl⟩
    exact ⟨position_le_iff.2 t.earliest_le, position_le_iff.2 t.le_latest⟩
  · rintro ⟨first, last⟩
    have hfirst : earliest.daysSinceEpoch ≤ p / 86400 := by
      unfold position at first
      omega
    have hlast : p / 86400 ≤ latest.daysSinceEpoch := by
      have := latest.secondOfDay_lt
      unfold position at last
      omega
    have inDay : (p % 86400).toNat < 86400 := by omega
    obtain ⟨t, -, day, second⟩ :=
      exists_ofDayAndSecond (year_le_of_daysSinceEpoch hfirst hlast) inDay
    refine ⟨t, ?_⟩
    rw [position, day, second]
    omega

/-! ## From a place to its instant -/

/-- The instant at the position of an instant is the instant again. -/
theorem ofSeconds_position (t : Instant) : ofSeconds t.position = .ok t := by
  have hour := t.hour_le
  have minute := t.minute_le
  have second := t.second_le
  have inDay := t.secondOfDay_lt
  have day : t.position / 86400 = t.daysSinceEpoch := by
    unfold position
    omega
  have rest : (t.position % 86400).toNat = t.secondOfDay := by
    unfold position
    omega
  rw [ofSeconds, day, rest, ofDayAndSecond, daysSinceEpoch,
    Calendar.civilOfDay_dayNumber t.exists_date, ofFields_eq_ok_iff]
  -- The second of the day is taken apart into the fields that it was made of.
  have fields : t.secondOfDay / 3600 = t.hour ∧ t.secondOfDay % 3600 / 60 = t.minute ∧
      t.secondOfDay % 60 = t.second := by
    unfold secondOfDay
    omega
  obtain ⟨hhour, hminute, hsecond⟩ := fields
  rw [hhour, hminute, hsecond]
  exact ⟨t.isReal, rfl, rfl, rfl, rfl, rfl, rfl⟩

/-- A year that is no year of an instant is the first fault of its day. -/
theorem ofDayAndSecond_eq_error {day : Int} {second : Nat}
    (hyear : maxYear < (civilOfDay day).year.natAbs) :
    ofDayAndSecond day second = .error (.year (civilOfDay day).year) := by
  rw [ofDayAndSecond, ofFields, dif_neg (not_le.2 hyear)]

/-- **A place has the instant that is there.** -/
theorem ofSeconds_eq_ok_iff {t : Instant} : ofSeconds p = .ok t ↔ t.position = p := by
  constructor
  · intro h
    have inDay : (p % 86400).toNat < 86400 := by omega
    by_cases hyear : (civilOfDay (p / 86400)).year.natAbs ≤ maxYear
    · obtain ⟨t', ht', day, second⟩ := exists_ofDayAndSecond hyear inDay
      obtain rfl : t' = t := Except.ok.inj (ht'.symm.trans h)
      rw [position, day, second]
      omega
    · rw [ofSeconds, ofDayAndSecond_eq_error (not_le.1 hyear)] at h
      cases h
  · rintro rfl
    exact t.ofSeconds_position

/-- **A place without an instant has a year beyond the last one**, and this year is the fault. -/
theorem ofSeconds_eq_error (h : ∀ t : Instant, t.position ≠ p) :
    ∃ year : Int, maxYear < year.natAbs ∧ ofSeconds p = .error (.year year) := by
  have hyear : maxYear < (civilOfDay (p / 86400)).year.natAbs := by
    rw [← not_le]
    intro inside
    have inDay : (p % 86400).toNat < 86400 := by omega
    obtain ⟨t, ht, -, -⟩ := exists_ofDayAndSecond inside inDay
    exact h t (ofSeconds_eq_ok_iff.1 ht)
  exact ⟨_, hyear, ofDayAndSecond_eq_error hyear⟩

end Instant
end DateFacet
