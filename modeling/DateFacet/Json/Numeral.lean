/-
# JSON numbers

No value of this library is a number, but numbers stand in texts that it reads, in fields that
it passes over and as positions in a list of choices.  A numeral keeps its digits.

A number that has to be held is held in binary floating point of 64 bits.  Its digits, without
those that would take them past 64 bits, and the power of ten are each rounded to 53 bits, and
the number is too large when their product rounds to infinity.
-/

import DateFacet.Text.Decimal

namespace DateFacet
namespace Json

open Text (digitsValue)

/-- A written number: sign, digits before the point, digits after it, and the exponent with its
sign. -/
structure Numeral where
  negative : Bool
  whole : List Char
  fraction : Option (List Char)
  exponent : Option (Bool × List Char)
  deriving DecidableEq

namespace Numeral

/-- The digits in front and the rest; there must be a digit. -/
def scanDigits (cs : List Char) : Option (List Char × List Char) :=
  if (cs.takeWhile Char.isDigit).isEmpty then none
  else some (cs.takeWhile Char.isDigit, cs.dropWhile Char.isDigit)

/-- The digits before the point, of which a zero is the first only if it is the last. -/
def scanWhole (cs : List Char) : Option (List Char × List Char) := do
  let (digits, rest) ← scanDigits cs
  if digits.head? = some '0' ∧ 1 < digits.length then none else some (digits, rest)

/-- The point and its digits, if there is a point. -/
def scanFraction : List Char → Option (Option (List Char) × List Char)
  | '.' :: rest => (scanDigits rest).map fun (digits, rest) => (some digits, rest)
  | cs => some (none, cs)

/-- The sign of an exponent, `true` for a minus sign. -/
def scanExponentSign : List Char → Bool × List Char
  | '+' :: rest => (false, rest)
  | '-' :: rest => (true, rest)
  | cs => (false, cs)

/-- The exponent, if there is a letter for one. -/
def scanExponent : List Char → Option (Option (Bool × List Char) × List Char)
  | c :: rest =>
    if c = 'e' ∨ c = 'E' then
      let (negative, rest) := scanExponentSign rest
      (scanDigits rest).map fun (digits, rest) => (some (negative, digits), rest)
    else some (none, c :: rest)
  | [] => some (none, [])

/-- A number in front and the rest. -/
def scan (cs : List Char) : Option (Numeral × List Char) := do
  let (negative, rest) := match cs with
    | '-' :: rest => (true, rest)
    | cs => (false, cs)
  let (whole, rest) ← scanWhole rest
  let (fraction, rest) ← scanFraction rest
  let (exponent, rest) ← scanExponent rest
  some (⟨negative, whole, fraction, exponent⟩, rest)

/-- The least natural number that does not fit in 64 bits. -/
def word : Nat := 18446744073709551616

/-- The position that a number gives: a plain natural number of at most 64 bits. -/
def position? (n : Numeral) : Option Nat :=
  if !n.negative && n.fraction.isNone && n.exponent.isNone && digitsValue n.whole < word then
    some (digitsValue n.whole)
  else none

/-! ## Size -/

/-- The natural number rounded to `bits` significant bits, a tie to the even neighbour. -/
def roundBits (bits n : Nat) : Nat :=
  let spare := n.log2 + 1 - bits
  let unit := Nat.pow 2 spare
  let low := n / unit
  let rest := n % unit
  let up := unit < 2 * rest ∨ (2 * rest = unit ∧ low % 2 = 1)
  if up then (low + 1) * unit else low * unit

/-- The number of digits that can follow a value so that it stays below 64 bits. -/
def heldCount (value : Nat) : List Char → Nat
  | [] => 0
  | c :: cs =>
    let next := value * 10 + (c.toNat - '0'.toNat)
    if next < word then heldCount next cs + 1 else 0

/-- The power of ten that the exponent names. -/
def power (n : Numeral) : Int :=
  match n.exponent with
  | none => 0
  | some (true, digits) => -digitsValue digits
  | some (false, digits) => digitsValue digits

/-- The digits that are held, as a natural number, and the power of ten to multiply it with:
first those before the point that fit, then those after it that still do. -/
def held (n : Numeral) : Nat × Int :=
  let before := n.whole.take (heldCount 0 n.whole)
  let fraction := n.fraction.getD []
  let after := fraction.take (heldCount (digitsValue before) fraction)
  (digitsValue (before ++ after),
    n.power + (n.whole.length - before.length : Nat) - after.length)

/-- The least natural number that rounds to infinity, half a unit below 2^1024. -/
def infinity : Nat := Nat.pow 2 1024 - Nat.pow 2 970

/-- The number does not round to infinity. -/
def isFinite (n : Numeral) : Bool :=
  let (digits, power) := n.held
  digits == 0 || power < 0 ||
    (power ≤ 308 && roundBits 53 digits * roundBits 53 (Nat.pow 10 power.toNat) < infinity)

end Numeral
end Json
end DateFacet
