/-
# A shift moves along the line of seconds

A shift carries the minute of the day and the day apart from each other, and gives up where one of
the two counts leaves 64 bits.  On the line of seconds it is one addition, `shift_eq`: the new place
is sixty times the minutes away.

Instants lie so close together that the counts cannot leave 64 bits on the way from one of them to
another (`fits64_of_position`).  So the checks refuse nothing that the years of an instant allow,
and a shift is undone by the shift back.
-/

import DateFacet.Proofs.Positions

namespace DateFacet
namespace Instant

variable {t r : Instant} {minutes : Int}

/-- The places of the first and the last instant, in numbers. -/
theorem position_mem (t : Instant) :
    -31556952062135596800 ≤ t.position ∧ t.position ≤ 31556951937832780799 := by
  have first : earliest.position = -31556952062135596800 := by decide
  have last : latest.position = 31556951937832780799 := by decide
  rw [← first, ← last]
  exact exists_position_iff.1 ⟨t, rfl⟩

/-- **From an instant to another, all counts of a shift fit in 64 bits**, and so do those of the
shift back. -/
theorem fits64_of_position (h : r.position = t.position + 60 * minutes) :
    Fits64 (-minutes) ∧ Fits64 (t.minuteOfDay + minutes) ∧
      Fits64 (t.daysSinceEpoch + (t.minuteOfDay + minutes) / 1440) := by
  have start := t.position_mem
  have target := r.position_mem
  have inDay := t.secondOfDay_lt
  have hour := t.hour_le
  have minute := t.minute_le
  have day : t.position = 86400 * t.daysSinceEpoch + t.secondOfDay := rfl
  unfold Fits64 minuteOfDay
  omega

/-- **A shift is an addition on the line of seconds**, as long as its counts fit in 64 bits. -/
theorem shift_eq (t : Instant) (minutes : Int) : t.shift minutes =
    if Fits64 (t.minuteOfDay + minutes) ∧
        Fits64 (t.daysSinceEpoch + (t.minuteOfDay + minutes) / 1440) then
      ofSeconds (t.position + 60 * minutes)
    else .error (.shiftLength t.text minutes) := by
  have second := t.second_le
  have start : t.position = 86400 * t.daysSinceEpoch + (60 * t.minuteOfDay + t.second) := by
    unfold position secondOfDay minuteOfDay
    omega
  have day : (t.position + 60 * minutes) / 86400 =
      t.daysSinceEpoch + (t.minuteOfDay + minutes) / 1440 := by omega
  have rest : ((t.position + 60 * minutes) % 86400).toNat =
      60 * ((t.minuteOfDay + minutes) % 1440).toNat + t.second := by omega
  rw [ofSeconds, ofDayAndSecond, day, rest, shift]
  generalize ((t.minuteOfDay + minutes) % 1440).toNat = minute
  have fields : (60 * minute + t.second) / 3600 = minute / 60 ∧
      (60 * minute + t.second) % 3600 / 60 = minute % 60 ∧
      (60 * minute + t.second) % 60 = t.second := by omega
  rw [fields.1, fields.2.1, fields.2.2]

/-- **A shift gives the instant that is so many minutes away.** -/
theorem shift_eq_ok_iff : t.shift minutes = .ok r ↔ r.position = t.position + 60 * minutes := by
  constructor
  · intro h
    rw [shift_eq] at h
    split at h
    · exact ofSeconds_eq_ok_iff.1 h
    · cases h
  · intro h
    rw [shift_eq, if_pos (fits64_of_position h).2]
    exact ofSeconds_eq_ok_iff.2 h

/-- Without an instant so many minutes away, the fault is the length of the shift or its year. -/
theorem shift_eq_error (h : ∀ r : Instant, r.position ≠ t.position + 60 * minutes) :
    t.shift minutes = .error (.shiftLength t.text minutes) ∨
      ∃ year : Int, maxYear < year.natAbs ∧ t.shift minutes = .error (.year year) := by
  rw [shift_eq]
  split
  · exact .inr (ofSeconds_eq_error h)
  · exact .inl rfl

/-- **Shifts by minutes are exact.**  Whatever the number of minutes, a shift gives the instant that
lies sixty times as many seconds away, and it gives one exactly if this place lies between the first
and the last instant; beyond them it fails, for its length or for its year.  In particular no check
of its counts refuses a place that has an instant.  The shift back has a number of minutes of 64
bits again, and leads to where the shift began. -/
theorem shift_reaches (t : Instant) (minutes : Int) :
    (∀ r, t.shift minutes = .ok r ↔ r.position = t.position + 60 * minutes) ∧
    ((∃ r, t.shift minutes = .ok r) ↔ earliest.position ≤ t.position + 60 * minutes ∧
      t.position + 60 * minutes ≤ latest.position) ∧
    ((∀ r : Instant, r.position ≠ t.position + 60 * minutes) →
      t.shift minutes = .error (.shiftLength t.text minutes) ∨
        ∃ year : Int, maxYear < year.natAbs ∧ t.shift minutes = .error (.year year)) ∧
    ∀ r, t.shift minutes = .ok r → Fits64 (-minutes) ∧ r.shift (-minutes) = .ok t := by
  refine ⟨fun _ => shift_eq_ok_iff, ?_, shift_eq_error, fun r h => ?_⟩
  · simp only [shift_eq_ok_iff, exists_position_iff]
  · have moved := shift_eq_ok_iff.1 h
    exact ⟨(fits64_of_position moved).1, shift_eq_ok_iff.2 (by omega)⟩

/-- The hypotheses of `shift_reaches` hold of the last minutes of a leap day in year 0, which a
shift leaves for March and the shift back finds again, and of the minute after the last one. -/
theorem shift_reaches_march :
    (∃ t r, ofFields 0 2 29 23 30 15 = .ok t ∧ ofFields 0 3 1 0 1 15 = .ok r ∧
      t.shift 31 = .ok r ∧ r.shift (-31) = .ok t) ∧
    (latest.shift 1 = .error (.shiftLength latest.text 1) ∨
      ∃ year : Int, maxYear < year.natAbs ∧ latest.shift 1 = .error (.year year)) := by
  have beyond (r : Instant) : r.position ≠ latest.position + 60 * 1 := by
    have := position_le_iff.2 r.le_latest
    omega
  obtain ⟨t, ht⟩ := exists_ofFields (by decide : IsReal 0 2 29 23 30 15)
  obtain ⟨r, hr⟩ := exists_ofFields (by decide : IsReal 0 3 1 0 1 15)
  have away : r.position = t.position + 60 * 31 := by
    obtain rfl := Except.ok.inj ht
    obtain rfl := Except.ok.inj hr
    decide
  have moved : t.shift 31 = .ok r := ((shift_reaches t 31).1 r).2 away
  exact ⟨⟨t, r, ht, hr, moved, ((shift_reaches t 31).2.2.2 r moved).2⟩,
    (shift_reaches latest 1).2.2.1 beyond⟩

end Instant
end DateFacet
