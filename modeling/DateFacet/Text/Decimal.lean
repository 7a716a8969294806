/-
# Decimal digits and numerals

Two classes of digits matter.  The wide one is the Unicode general category `Nd`, in which
every script keeps its ten digits in one run from zero to nine; a date may be spelled with
any of them.  The narrow one is ASCII `0` to `9`, and only a numeral of these has a value.

A numeral is written without leading zeros, or padded with them to a least width.  The main
statement is that the value of a written numeral is the number again, whatever the width.
-/

namespace DateFacet
namespace Text

/-- The code points of the digits zero of the general category `Nd`, in order. -/
def digitZeros : List Nat :=
  [0x0030, 0x0660, 0x06F0, 0x07C0, 0x0966, 0x09E6, 0x0A66, 0x0AE6, 0x0B66, 0x0BE6, 0x0C66,
   0x0CE6, 0x0D66, 0x0DE6, 0x0E50, 0x0ED0, 0x0F20, 0x1040, 0x1090, 0x17E0, 0x1810, 0x1946,
   0x19D0, 0x1A80, 0x1A90, 0x1B50, 0x1BB0, 0x1C40, 0x1C50, 0xA620, 0xA8D0, 0xA900, 0xA9D0,
   0xA9F0, 0xAA50, 0xABF0, 0xFF10, 0x104A0, 0x10D30, 0x10D40, 0x11066, 0x110F0, 0x11136, 0x111D0,
   0x112F0, 0x11450, 0x114D0, 0x11650, 0x116C0, 0x116D0, 0x116DA, 0x11730, 0x118E0, 0x11950,
   0x11BF0, 0x11C50, 0x11D50, 0x11DA0, 0x11F50, 0x16130, 0x16A60, 0x16AC0, 0x16B50, 0x16D70,
   0x1CCF0, 0x1D7CE, 0x1D7D8, 0x1D7E2, 0x1D7EC, 0x1D7F6, 0x1E140, 0x1E2F0, 0x1E4F0, 0x1E5F1,
   0x1E950, 0x1FBF0]

/-- A digit of any script: one of the ten code points from a digit zero on. -/
def isDecimal (c : Char) : Bool :=
  digitZeros.any fun first => first ≤ c.toNat && c.toNat < first + 10

/-- The runs stand in order and do not overlap. -/
example : digitZeros.Pairwise (fun a b => a + 10 ≤ b) := by decide

/-- The ASCII digits are the first run. -/
theorem isDecimal_of_isDigit {c : Char} (h : c.isDigit = true) : isDecimal c = true := by
  rw [Char.isDigit_iff_toNat] at h
  simp only [isDecimal, digitZeros, List.any_cons, Bool.or_eq_true]
  left
  simp only [Bool.and_eq_true, decide_eq_true_eq]
  have zero : '0'.toNat = 48 := rfl
  have nine : '9'.toNat = 57 := rfl
  omega

/-- The numeral of a natural number, without leading zeros. -/
def numeral (n : Nat) : List Char :=
  Nat.toDigits 10 n

/-- The numeral padded with zeros on the left to at least `width` digits. -/
def padded (width n : Nat) : List Char :=
  List.replicate (width - (numeral n).length) '0' ++ numeral n

/-- The numeral of an integer: a minus sign stands before a negative one. -/
def signedNumeral (n : Int) : List Char :=
  if n < 0 then '-' :: numeral n.natAbs else numeral n.natAbs

/-- The number that ASCII digits spell; leading zeros do not count. -/
def digitsValue (cs : List Char) : Nat :=
  Nat.ofDigitChars 10 cs 0

/-- Zero too is written with a digit. -/
theorem numeral_ne_nil (n : Nat) : numeral n ≠ [] :=
  Nat.toDigits_ne_nil

/-- An integer is written with at least one character. -/
theorem signedNumeral_ne_nil (n : Int) : signedNumeral n ≠ [] := by
  unfold signedNumeral
  split
  · exact List.cons_ne_nil _ _
  · exact numeral_ne_nil _

/-- A numeral is written with ASCII digits. -/
theorem isDigit_of_mem_numeral {n : Nat} {c : Char} (h : c ∈ numeral n) : c.isDigit = true :=
  Nat.isDigit_of_mem_toDigits (by decide) (by decide) h

/-- The zeros in front of a padded numeral are digits as well. -/
theorem isDigit_of_mem_padded {width n : Nat} {c : Char} (h : c ∈ padded width n) :
    c.isDigit = true := by
  rcases List.mem_append.1 h with zero | digit
  · rw [(List.mem_replicate.1 zero).2]; rfl
  · exact isDigit_of_mem_numeral digit

/-- A character that is no digit does not stand in a padded numeral. -/
theorem notMem_padded {c : Char} (h : c.isDigit = false) (width n : Nat) : c ∉ padded width n :=
  fun mem => Bool.false_ne_true (h.symm.trans (isDigit_of_mem_padded mem))

/-- Padding fills up to the width and never cuts a numeral. -/
theorem length_padded (width n : Nat) :
    (padded width n).length = max width (numeral n).length := by
  rw [padded, List.length_append, List.length_replicate]; omega

/-- A number of at most `width` digits fills exactly `width` places. -/
theorem length_padded_of_lt {width n : Nat} (pos : 0 < width) (h : n < Nat.pow 10 width) :
    (padded width n).length = width := by
  have : (Nat.toDigits 10 n).length ≤ width :=
    (Nat.length_toDigits_le_iff (by decide) pos).2 h
  rw [length_padded, numeral]; omega

/-- A numeral spells its number. -/
@[simp] theorem digitsValue_numeral (n : Nat) : digitsValue (numeral n) = n :=
  Nat.ofDigitChars_toDigits (by decide) (by decide)

/-- **A padded numeral spells its number.** -/
@[simp] theorem digitsValue_padded (width n : Nat) : digitsValue (padded width n) = n := by
  rw [digitsValue, padded, Nat.ofDigitChars_append, Nat.ofDigitChars_replicate_zero,
    Nat.mul_zero]
  exact digitsValue_numeral n

end Text
end DateFacet
