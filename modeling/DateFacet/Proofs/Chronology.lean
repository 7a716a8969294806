/-
# The line of seconds

Every instant has its place on the line of seconds, and every place in reach has its instant.  The
first part makes the order by fields a linear order of the library.

The second part is about counts of 64 bits.  From a count to its instant nothing is lost
(`exists_ofSeconds`).  The way back first counts the seconds up to midnight, and these may leave 64
bits where the count itself does not: that happens on one day only, the one in which the least
count of 64 bits falls (`secondsSinceEpoch?_eq`, `ofSeconds_least_lost`).
-/

import DateFacet.Instant.Order
import DateFacet.Instant.Timeline
import DateFacet.Proofs.DayCount
import Mathlib.Order.Defs.LinearOrder

namespace DateFacet
namespace Instant

open Calendar (civilOfDay dayNumber)

/-! ## The order -/

/-- The order by fields is linear. -/
instance : LinearOrder Instant where
  le_refl a := by
    rw [le_iff_not_lt, lt_iff]
    omega
  le_trans a b c hab hbc := by
    rw [le_iff_not_lt, lt_iff] at *
    omega
  lt_iff_le_not_ge a b := by
    rw [le_iff_not_lt, le_iff_not_lt, lt_iff, lt_iff]
    omega
  le_antisymm a b hab hba := by
    rcases (le_iff_lt_or_eq a b).1 hab with lt | eq
    · exact absurd lt ((le_iff_not_lt b a).1 hba)
    · exact eq
  le_total a b := by
    rw [le_iff_not_lt, le_iff_not_lt, lt_iff, lt_iff]
    omega
  toDecidableLE := inferInstance
  toDecidableLT := inferInstance
  toDecidableEq := inferInstance
  toOrd := inferInstance
  compare_eq_compareOfLessAndEq a b := by
    have lt : a < b ↔ compare a b = .lt := Iff.rfl
    have eq := compare_eq_eq_iff (a := a) (b := b)
    unfold compareOfLessAndEq
    cases h : compare a b <;> simp_all

/-! ## Seconds -/

/-- A day has 86400 seconds. -/
theorem secondOfDay_lt (t : Instant) : t.secondOfDay < 86400 := by
  have := t.hour_le
  have := t.minute_le
  have := t.second_le
  unfold secondOfDay
  omega

/-- The instant of a real time. -/
def ofReal {year : Int} {month day hour minute second : Nat}
    (h : IsReal year month day hour minute second) : Instant :=
  ⟨year, month, day, hour, minute, second, h.1, h.2.1, h.2.2.1, h.2.2.2.1, h.2.2.2.2.1,
    h.2.2.2.2.2⟩

/-- The field check has an instant for every real time. -/
theorem exists_ofFields {year : Int} {month day hour minute second : Nat}
    (h : IsReal year month day hour minute second) :
    ∃ t, ofFields year month day hour minute second = .ok t :=
  ⟨ofReal h, ofFields_eq_ok_iff.2 ⟨h, rfl, rfl, rfl, rfl, rfl, rfl⟩⟩

/-- **A day and a second of it name an instant**, if the year of the day is one of an instant. -/
theorem exists_ofDayAndSecond {day : Int} {second : Nat}
    (hyear : (civilOfDay day).year.natAbs ≤ maxYear) (hsecond : second < 86400) :
    ∃ t, ofDayAndSecond day second = .ok t ∧ t.daysSinceEpoch = day ∧ t.secondOfDay = second := by
  obtain ⟨first, last, hday⟩ := Calendar.exists_civilOfDay day
  have real : IsReal (civilOfDay day).year (civilOfDay day).month (civilOfDay day).day
      (second / 3600) (second % 3600 / 60) (second % 60) :=
    ⟨hyear, ⟨first, last⟩, hday, by omega, by omega, by omega⟩
  obtain ⟨t, ht⟩ := exists_ofFields real
  obtain ⟨-, year, month, hday, hour, minute, hsec⟩ := ofFields_eq_ok_iff.1 ht
  refine ⟨t, ht, ?_, ?_⟩
  · rw [daysSinceEpoch, date, year, month, hday, Calendar.dayNumber_civilOfDay]
  · rw [secondOfDay, hour, minute, hsec]
    omega

/-- A count of seconds that fits in 64 bits leads to a year of an instant. -/
theorem year_le_of_fits64 {seconds : Int} (h : Fits64 seconds) :
    (civilOfDay (seconds / 86400)).year.natAbs ≤ maxYear := by
  obtain ⟨lo, hi⟩ := Calendar.year_civilOfDay_mem (seconds / 86400)
  unfold Fits64 at h
  unfold maxYear
  omega

/-- **Every count of seconds that fits in 64 bits has its instant.** -/
theorem exists_ofSeconds {seconds : Int} (h : Fits64 seconds) :
    ∃ t, ofSeconds seconds = .ok t ∧ t.position = seconds := by
  have hsecond : (seconds % 86400).toNat < 86400 := by omega
  obtain ⟨t, ht, day, second⟩ := exists_ofDayAndSecond (year_le_of_fits64 h) hsecond
  refine ⟨t, ht, ?_⟩
  rw [position, day, second]
  omega

/-- The first second whose count is given: the midnight of the first day that has its midnight
within 64 bits. -/
def firstCounted : Int := -106751991167300 * 86400

/-- **A count is given from the first whole day on.**  The seconds up to midnight are counted
first, so the part of a day at the lower end of 64 bits is left out. -/
theorem secondsSinceEpoch?_eq (t : Instant) : t.secondsSinceEpoch? =
    if Fits64 t.position ∧ firstCounted ≤ t.position then some t.position else none := by
  have day := t.secondOfDay_lt
  have position : t.position = t.daysSinceEpoch * 86400 + t.secondOfDay := by
    unfold Instant.position
    omega
  have fits : Fits64 (t.daysSinceEpoch * 86400) ∧ Fits64 t.position ↔
      Fits64 t.position ∧ firstCounted ≤ t.position := by
    unfold Fits64 firstCounted
    omega
  rw [secondsSinceEpoch?, ← position]
  exact if_congr fits rfl rfl

/-- **Which counts are restored.**  A count that fits in 64 bits has its instant, at exactly that
place on the line of seconds; it is given back exactly if it is not before the first whole day.
Whatever the instant, only a count that does not fit or is before that day is left out. -/
theorem ofSeconds_restored (seconds : Int) (h : Fits64 seconds) :
    (∃ t, ofSeconds seconds = .ok t ∧
      IsReal t.year t.month t.day t.hour t.minute t.second ∧ t.position = seconds ∧
      (t.secondsSinceEpoch? = some seconds ↔ firstCounted ≤ seconds)) ∧
    ∀ t : Instant,
      t.secondsSinceEpoch? = none ↔ ¬ Fits64 t.position ∨ t.position < firstCounted := by
  constructor
  · obtain ⟨t, ht, position⟩ := exists_ofSeconds h
    refine ⟨t, ht, t.isReal, position, ?_⟩
    rw [secondsSinceEpoch?_eq, position]
    constructor
    · intro given
      by_contra early
      rw [if_neg fun both => early both.2] at given
      cases given
    · intro counted
      rw [if_pos ⟨h, counted⟩]
  · intro t
    rw [secondsSinceEpoch?_eq, ite_eq_right_iff, imp_iff_not nofun, not_and_or, not_le]

/-- The hypothesis of `ofSeconds_restored` holds of the largest count, which is given back. -/
theorem ofSeconds_restored_last : ∃ t, ofSeconds 9223372036854775807 = .ok t ∧
    t.secondsSinceEpoch? = some 9223372036854775807 := by
  obtain ⟨⟨t, ht, -, -, counted⟩, -⟩ := ofSeconds_restored 9223372036854775807 (by decide)
  exact ⟨t, ht, counted.2 (by decide)⟩

/-- The least count of 64 bits has its instant, which does not give it back. -/
theorem ofSeconds_least_lost : Fits64 (-9223372036854775808) ∧
    ∃ t, ofSeconds (-9223372036854775808) = .ok t ∧ t.position = -9223372036854775808 ∧
    t.secondsSinceEpoch? = none :=
  ⟨by decide, _, rfl, by decide, by decide⟩

end Instant
end DateFacet
