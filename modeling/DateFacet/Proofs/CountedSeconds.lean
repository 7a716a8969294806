/-
# Counting seconds

A range compares instants field by field, while a shift and a count of seconds work on the line of
seconds.  This module says that the two views agree.  Comparing fields is comparing places
(`compare_position`), so a count, where there is one, is as good for a comparison as the fields are
(`compare_chronological`).

A count is an exact place and not one reduced to 64 bits: where it is given, it is the place
(`secondsSinceEpoch?_eq_some`), and the instant that is rebuilt from it is the one that was counted
(`ofSeconds_counted`).  Which instants have a count is settled by `secondsSinceEpoch?_eq`.
-/

import DateFacet.Proofs.Positions

namespace DateFacet
namespace Instant

variable {t : Instant} {seconds : Int}

/-! ## Comparing -/

/-- **Comparing fields is comparing places.** -/
theorem compare_position (a b : Instant) : compare a.position b.position = compare a b := by
  rcases lt_trichotomy a b with earlier | rfl | later
  · rw [compare_lt_iff_lt.2 earlier, compare_lt_iff_lt.2 (position_lt_iff.2 earlier)]
  · rw [compare_eq_iff_eq.2 rfl, compare_eq_iff_eq.2 rfl]
  · rw [compare_gt_iff_gt.2 later, compare_gt_iff_gt.2 (position_lt_iff.2 later)]

/-! ## Counting -/

/-- A count fits in 64 bits and is the exact place. -/
theorem secondsSinceEpoch?_eq_some (h : t.secondsSinceEpoch? = some seconds) :
    Fits64 seconds ∧ t.position = seconds := by
  rw [secondsSinceEpoch?_eq] at h
  split at h
  · next counted =>
    obtain rfl := Option.some.inj h
    exact ⟨counted.1, rfl⟩
  · cases h

/-- The place, written out in the fields of the time of day. -/
theorem position_eq (t : Instant) :
    t.position = 86400 * t.daysSinceEpoch + 3600 * t.hour + 60 * t.minute + t.second := by
  unfold position secondOfDay
  omega

/-- **The order by fields is the order of time.**  Of two instants the one that is less by its
fields has the smaller place on the line of seconds, and instants with equal places are equal.  So
two counts of seconds, where both are given, compare as their instants do. -/
theorem compare_chronological (a b : Instant) :
    (a < b ↔ a.position < b.position) ∧ (a = b ↔ a.position = b.position) ∧
      compare a b = compare a.position b.position ∧
      ∀ m ∈ a.secondsSinceEpoch?, ∀ n ∈ b.secondsSinceEpoch?, compare m n = compare a b := by
  refine ⟨position_lt_iff.symm, position_inj.symm, (compare_position a b).symm, ?_⟩
  intro m hm n hn
  rw [← (secondsSinceEpoch?_eq_some hm).2, ← (secondsSinceEpoch?_eq_some hn).2, compare_position]

/-- The hypotheses of `compare_chronological` hold of the last second before year 0 and of its first
second, whose fields after the year are all smaller. -/
theorem compare_chronological_new_year :
    ∃ a b : Instant, ofFields (-1) 12 31 23 59 59 = .ok a ∧ ofFields 0 1 1 0 0 0 = .ok b ∧
      a.secondsSinceEpoch? = some (-62167219201) ∧ b.secondsSinceEpoch? = some (-62167219200) ∧
      compare (-62167219201 : Int) (-62167219200) = compare a b := by
  obtain ⟨a, ha⟩ := exists_ofFields (by decide : IsReal (-1) 12 31 23 59 59)
  obtain ⟨b, hb⟩ := exists_ofFields (by decide : IsReal 0 1 1 0 0 0)
  have last : a.secondsSinceEpoch? = some (-62167219201) := by
    obtain rfl := Except.ok.inj ha
    decide
  have first : b.secondsSinceEpoch? = some (-62167219200) := by
    obtain rfl := Except.ok.inj hb
    decide
  exact ⟨a, b, ha, hb, last, first, (compare_chronological a b).2.2.2 _ last _ first⟩

/-- **A count is exact and leads back.**  A count of seconds that is given is 86400 seconds for each
day since 1970-01-01 and those of the day, and the instant at this count is the one that was
counted. -/
theorem ofSeconds_counted (h : t.secondsSinceEpoch? = some seconds) :
    seconds = 86400 * t.daysSinceEpoch + 3600 * t.hour + 60 * t.minute + t.second ∧
      Fits64 seconds ∧ ofSeconds seconds = .ok t := by
  obtain ⟨fits, rfl⟩ := secondsSinceEpoch?_eq_some h
  exact ⟨t.position_eq, fits, t.ofSeconds_position⟩

/-- The hypothesis of `ofSeconds_counted` holds of the last second of a leap day, two hundred
billion years before year 0. -/
theorem ofSeconds_counted_leap_day :
    ∃ t : Instant, ofFields (-200000000000) 2 29 23 59 59 = .ok t ∧
      t.secondsSinceEpoch? = some (-6311390462162035201) ∧
      ofSeconds (-6311390462162035201) = .ok t := by
  obtain ⟨t, ht⟩ := exists_ofFields (by decide : IsReal (-200000000000) 2 29 23 59 59)
  have counted : t.secondsSinceEpoch? = some (-6311390462162035201) := by
    obtain rfl := Except.ok.inj ht
    decide
  exact ⟨t, ht, counted, (ofSeconds_counted counted).2.2⟩

end Instant
end DateFacet
