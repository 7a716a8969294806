/-
# The order of instants

Two instants are compared by year, then month, day, hour, minute and second; the first
difference decides.  `lt_iff` writes the order out as arithmetic on the fields, and
`le_iff_not_lt` says that it is total.
-/

import DateFacet.Instant.Basic

namespace DateFacet
namespace Instant

/-- The order by fields, from the year down to the second. -/
protected def compare (a b : Instant) : Ordering :=
  (compare a.year b.year).then <| (compare a.month b.month).then <|
    (compare a.day b.day).then <| (compare a.hour b.hour).then <|
      (compare a.minute b.minute).then (compare a.second b.second)

instance : Ord Instant := ⟨Instant.compare⟩

instance : LT Instant := ⟨fun a b => compare a b = .lt⟩

instance : LE Instant := ⟨fun a b => compare a b ≠ .gt⟩

instance (a b : Instant) : Decidable (a < b) :=
  inferInstanceAs (Decidable (compare a b = .lt))

instance (a b : Instant) : Decidable (a ≤ b) :=
  inferInstanceAs (Decidable (compare a b ≠ .gt))

/-- The first difference decides that `a` comes before `b`. -/
theorem lt_iff (a b : Instant) :
    a < b ↔ a.year < b.year ∨ a.year = b.year ∧ (a.month < b.month ∨ a.month = b.month ∧
      (a.day < b.day ∨ a.day = b.day ∧ (a.hour < b.hour ∨ a.hour = b.hour ∧
        (a.minute < b.minute ∨ a.minute = b.minute ∧ a.second < b.second)))) := by
  change Instant.compare a b = .lt ↔ _
  simp only [Instant.compare, Ordering.then_eq_lt, Int.compare_eq_lt, Int.compare_eq_eq,
    Nat.compare_eq_lt, Nat.compare_eq_eq]

/-- Only equal instants compare equal. -/
theorem compare_eq_eq_iff {a b : Instant} : compare a b = .eq ↔ a = b := by
  change Instant.compare a b = .eq ↔ _
  simp only [Instant.compare, Ordering.then_eq_eq, Int.compare_eq_eq, Nat.compare_eq_eq]
  cases a; cases b
  simp

/-- `a` does not come after `b`: it comes before it or is the same. -/
theorem le_iff_lt_or_eq (a b : Instant) : a ≤ b ↔ a < b ∨ a = b := by
  rw [← compare_eq_eq_iff]
  change compare a b ≠ .gt ↔ compare a b = .lt ∨ compare a b = .eq
  cases compare a b <;> simp

/-- An instant does not come after another exactly if the other does not come before it. -/
theorem le_iff_not_lt (a b : Instant) : a ≤ b ↔ ¬ b < a := by
  rw [lt_iff]
  change Instant.compare a b ≠ .gt ↔ _
  simp only [Instant.compare, ne_eq, Ordering.then_eq_gt, Int.compare_eq_gt, Int.compare_eq_eq,
    Nat.compare_eq_gt, Nat.compare_eq_eq]
  omega

end Instant
end DateFacet
