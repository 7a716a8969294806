/-
# What the outcome of a computation says

A computation that can fail goes on with a result only while there is one.  The lemmas of this
module take a success apart into the successes of its steps, and the failure of a list of checks
into the successes of the first ones and the failure of the next.
-/

import Mathlib.Tactic.Common

namespace DateFacet
namespace Outcome

variable {ε ε' α β : Type}

/-- A sequence succeeds exactly if its steps do, one after the other. -/
theorem bind_eq_ok_iff {x : Except ε α} {f : α → Except ε β} {b : β} :
    (x >>= f) = .ok b ↔ ∃ a, x = .ok a ∧ f a = .ok b := by
  cases x with
  | error e => exact ⟨nofun, nofun⟩
  | ok a =>
    constructor
    · intro h
      exact ⟨a, rfl, h⟩
    · rintro ⟨_, ⟨⟩, h⟩
      exact h

/-- A result to which something was done comes from a result. -/
theorem map_eq_ok_iff {x : Except ε α} {f : α → β} {b : β} :
    f <$> x = .ok b ↔ ∃ a, x = .ok a ∧ f a = b := by
  cases x with
  | error e => exact ⟨nofun, nofun⟩
  | ok a =>
    constructor
    · intro h
      exact ⟨a, rfl, Except.ok.inj h⟩
    · rintro ⟨_, ⟨⟩, rfl⟩
      rfl

/-- What is done to a result changes no failure. -/
theorem map_eq_error_iff {x : Except ε α} {f : α → β} {e : ε} :
    f <$> x = .error e ↔ x = .error e := by
  cases x with
  | error cause =>
    exact ⟨fun h => congrArg _ (Except.error.inj h), fun h => congrArg _ (Except.error.inj h)⟩
  | ok a => exact ⟨nofun, nofun⟩

/-- Another wording of the errors changes no success. -/
theorem mapError_eq_ok_iff {x : Except ε α} {f : ε → ε'} {a : α} :
    x.mapError f = .ok a ↔ x = .ok a := by
  cases x with
  | error e => exact ⟨nofun, nofun⟩
  | ok b => exact ⟨fun h => congrArg _ (Except.ok.inj h), fun h => congrArg _ (Except.ok.inj h)⟩

/-- Each result of a list of computations comes from one of them. -/
theorem exists_of_mem_mapM {f : α → Except ε β} {as : List α} {bs : List β}
    (h : as.mapM f = .ok bs) {b : β} (mem : b ∈ bs) : ∃ a ∈ as, f a = .ok b := by
  induction as generalizing bs with
  | nil =>
    obtain rfl : [] = bs := Except.ok.inj h
    cases mem
  | cons a as ih =>
    rw [List.mapM_cons] at h
    obtain ⟨first, hfirst, h⟩ := bind_eq_ok_iff.1 h
    obtain ⟨rest, hrest, h⟩ := bind_eq_ok_iff.1 h
    obtain rfl : first :: rest = bs := Except.ok.inj h
    rcases List.mem_cons.1 mem with rfl | mem
    · exact ⟨a, List.mem_cons_self, hfirst⟩
    · obtain ⟨other, hother, hb⟩ := ih hrest mem
      exact ⟨other, List.mem_cons_of_mem a hother, hb⟩

/-- A list of checks succeeds exactly if each of them does. -/
theorem forM_eq_ok_iff {check : α → Except ε Unit} {as : List α} :
    forM as check = .ok () ↔ ∀ a ∈ as, check a = .ok () := by
  induction as with
  | nil => exact iff_of_true rfl nofun
  | cons a as ih =>
    rw [List.forM_cons, bind_eq_ok_iff, List.forall_mem_cons, ← ih]
    constructor
    · rintro ⟨⟨⟩, first, rest⟩
      exact ⟨first, rest⟩
    · rintro ⟨first, rest⟩
      exact ⟨(), first, rest⟩

/-- **A list of checks fails as the first of them that does.** -/
theorem forM_eq_error_iff {check : α → Except ε Unit} {as : List α} {e : ε} :
    forM as check = .error e ↔ ∃ before a after, as = before ++ a :: after ∧
      (∀ b ∈ before, check b = .ok ()) ∧ check a = .error e := by
  induction as with
  | nil => exact iff_of_false nofun fun ⟨before, a, after, split, _⟩ => by simp at split
  | cons a as ih =>
    rw [List.forM_cons]
    cases first : check a with
    | error cause =>
      constructor
      · intro h
        obtain rfl : cause = e := Except.error.inj h
        exact ⟨[], a, as, rfl, nofun, first⟩
      · rintro ⟨_ | ⟨b, before⟩, c, after, split, passed, failed⟩
        · obtain ⟨rfl, -⟩ := List.cons.inj split
          rw [failed] at first
          exact congrArg _ (Except.error.inj first.symm)
        · obtain ⟨rfl, -⟩ := List.cons.inj split
          cases first.symm.trans (passed a List.mem_cons_self)
    | ok done =>
      constructor
      · intro h
        obtain ⟨before, c, after, rfl, passed, failed⟩ := ih.1 h
        exact ⟨a :: before, c, after, rfl, List.forall_mem_cons.2 ⟨first, passed⟩, failed⟩
      · rintro ⟨_ | ⟨b, before⟩, c, after, split, passed, failed⟩
        · obtain ⟨rfl, -⟩ := List.cons.inj split
          cases first.symm.trans failed
        · obtain ⟨-, rest⟩ := List.cons.inj split
          exact ih.2 ⟨before, c, after, rest, (List.forall_mem_cons.1 passed).2, failed⟩

end Outcome
end DateFacet
