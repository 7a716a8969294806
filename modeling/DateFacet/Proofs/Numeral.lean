/-
# Numerals of written digits

`DateFacet.Text.Decimal` says that a padded numeral spells its number.  Here is the other
direction: digits are the padded numeral of the number that they spell, as long as they are as many
as padding writes.  Both together make numerals and numbers one to one.
-/

import DateFacet.Text.Decimal

namespace DateFacet
namespace Text

/-- A digit is the numeral of its value. -/
theorem numeral_digit {c : Char} (h : c.isDigit = true) :
    c.toNat - '0'.toNat < 10 ∧ numeral (c.toNat - '0'.toNat) = [c] := by
  have hc := Char.isDigit_iff_toNat.1 h
  have zero : '0'.toNat = 48 := rfl
  have nine : '9'.toNat = 57 := rfl
  have small : c.toNat - '0'.toNat < 10 := by omega
  refine ⟨small, ?_⟩
  rw [numeral, Nat.toDigits_of_lt_base small, List.singleton_inj, ← Char.toNat_inj,
    Nat.toNat_digitChar_of_lt_ten small]
  omega

/-- Digits that follow a numeral go on with it. -/
theorem numeral_append {n : Nat} (pos : 0 < n) {cs : List Char}
    (digits : ∀ c ∈ cs, c.isDigit = true) :
    numeral n ++ cs = numeral (Nat.ofDigitChars 10 cs n) := by
  induction cs generalizing n with
  | nil => rw [List.append_nil, Nat.ofDigitChars_nil]
  | cons c cs ih =>
    obtain ⟨small, digit⟩ := numeral_digit (digits c List.mem_cons_self)
    have step : numeral n ++ [c] = numeral (10 * n + (c.toNat - '0'.toNat)) := by
      rw [← digit]
      exact Nat.toDigits_append_toDigits (by decide) pos small
    rw [Nat.ofDigitChars_cons, ← ih (by omega) fun d hd => digits d (List.mem_cons_of_mem c hd),
      ← step, List.append_assoc]
    rfl

/-- **A numeral without a leading zero is the one of its value.** -/
theorem numeral_digitsValue {cs : List Char} (digits : ∀ c ∈ cs, c.isDigit = true)
    (ne : cs ≠ []) (first : cs.head? ≠ some '0') : numeral (digitsValue cs) = cs := by
  cases cs with
  | nil => exact absurd rfl ne
  | cons c cs =>
    obtain ⟨-, digit⟩ := numeral_digit (digits c List.mem_cons_self)
    have notZero : 0 < c.toNat - '0'.toNat := by
      have hc := Char.isDigit_iff_toNat.1 (digits c List.mem_cons_self)
      have : c.toNat ≠ '0'.toNat := fun h => first (by rw [List.head?_cons, Char.toNat_inj.1 h])
      omega
    rw [digitsValue, Nat.ofDigitChars_cons, Nat.mul_zero, Nat.zero_add,
      ← numeral_append notZero fun d hd => digits d (List.mem_cons_of_mem c hd), digit]
    rfl

/-- Leading zeros do not count. -/
theorem digitsValue_zeros_append (k : Nat) (cs : List Char) :
    digitsValue (List.replicate k '0' ++ cs) = digitsValue cs := by
  rw [digitsValue, Nat.ofDigitChars_append, Nat.ofDigitChars_replicate_zero, Nat.mul_zero,
    digitsValue]

/-- Characters are zeros and then something that starts with no zero. -/
theorem exists_zeros_append (cs : List Char) :
    ∃ k rest, cs = List.replicate k '0' ++ rest ∧ rest.head? ≠ some '0' := by
  induction cs with
  | nil => exact ⟨0, [], rfl, nofun⟩
  | cons c cs ih =>
    by_cases zero : c = '0'
    · obtain ⟨k, rest, rfl, first⟩ := ih
      exact ⟨k + 1, rest, by rw [zero, List.replicate_succ, List.cons_append], first⟩
    · exact ⟨0, c :: cs, rfl, by simpa using zero⟩

/-- Digits are as many as padding to a width writes: exactly that many, or more without a leading
zero. -/
def Fills (width : Nat) (cs : List Char) : Prop :=
  cs.length = width ∨ width < cs.length ∧ cs.head? ≠ some '0'

/-- The numeral of a positive number has no leading zero. -/
theorem head?_numeral {n : Nat} (pos : 0 < n) : (numeral n).head? ≠ some '0' := by
  induction n using Nat.strongRecOn with
  | ind n ih =>
    by_cases small : n < 10
    · rw [numeral, Nat.toDigits_of_lt_base small, List.head?_cons, Ne, Option.some.injEq,
        ← Char.toNat_inj, Nat.toNat_digitChar_of_lt_ten small]
      have zero : '0'.toNat = 48 := rfl
      omega
    · rw [numeral, Nat.toDigits_of_base_le (by decide) (by omega),
        List.head?_append, Option.or_of_isSome (by simp [Nat.toDigits_ne_nil])]
      exact ih (n / 10) (by omega) (by omega)

/-- A padded numeral fills its width. -/
theorem fills_padded {width : Nat} (pos : 0 < width) (n : Nat) : Fills width (padded width n) := by
  by_cases short : (numeral n).length ≤ width
  · left
    rw [length_padded, Nat.max_eq_left short]
  · right
    rw [length_padded, padded, Nat.sub_eq_zero_of_le (by omega)]
    refine ⟨by omega, head?_numeral (Nat.pos_of_ne_zero ?_)⟩
    rintro rfl
    exact short pos

/-- **Digits that fill a width are the padded numeral of their value.** -/
theorem padded_digitsValue {width : Nat} (pos : 0 < width) {cs : List Char}
    (digits : ∀ c ∈ cs, c.isDigit = true) (fills : Fills width cs) :
    padded width (digitsValue cs) = cs := by
  rcases fills with length | ⟨length, first⟩
  -- The zeros in front are the padding; where nothing else is, one of them is the numeral.
  · obtain ⟨k, rest, rfl, first⟩ := exists_zeros_append cs
    rw [digitsValue_zeros_append, padded]
    by_cases ne : rest = []
    · subst ne
      rw [List.append_nil, List.length_replicate] at length
      have zero : numeral (digitsValue []) = ['0'] := rfl
      rw [zero, List.length_singleton, ← List.replicate_one, List.replicate_append_replicate,
        List.append_nil, length, Nat.sub_add_cancel pos]
    · rw [List.length_append, List.length_replicate] at length
      rw [numeral_digitsValue (fun c hc => digits c (List.mem_append_right _ hc)) ne first,
        show width - rest.length = k by omega]
  · have ne : cs ≠ [] := List.ne_nil_of_length_pos (by omega)
    rw [padded, numeral_digitsValue digits ne first, Nat.sub_eq_zero_of_le (by omega)]
    rfl

end Text
end DateFacet
