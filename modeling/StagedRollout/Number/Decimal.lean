/-
# StagedRollout.Number.Decimal -- decimal numerals and their doubles

A **decimal** is a sign, a natural coefficient and a power of ten. `Decimal.toBinary64` is the
double nearest to it. The quotient is exact before it is rounded, whatever the length of the
coefficient; an exponent that decides the outcome by its size alone is answered without
forming the power, so that a short text with a huge exponent costs nothing.

The lexical pieces that all numerals share stand here too: a run of digits at the front of a
text, its value, and the signed exponent that may follow a letter `e`.
-/
import StagedRollout.Number.Rounding

namespace StagedRollout

/- Powers of natural numbers are the core library's own. -/
attribute [local instance (2000)] instPowNat

/-! ## Decimals -/

/-- The number `± coefficient · 10 ^ exponent`. -/
structure Decimal where
  negative : Bool
  coefficient : Nat
  exponent : Int
deriving DecidableEq, Inhabited

namespace Decimal

/-- The size of a decimal as an exact quotient of units. -/
def unitRatio (d : Decimal) : Nat × Nat :=
  match d.exponent with
  | .ofNat e => (d.coefficient * 10 ^ e * unitsOfOne, 1)
  | .negSucc e => (d.coefficient * unitsOfOne, 10 ^ (e + 1))

/-- From this power of ten on every positive integer multiple is out of range, and below its
inverse every number rounds to zero. -/
def decisiveExponent : Nat := 400

/-- The double nearest to a decimal. A coefficient below `2 ^ k` is below `10 ^ k` as well, so
an exponent under `-(400 + k)` leaves less than half a unit. -/
def toBinary64 (d : Decimal) : Binary64 :=
  if d.coefficient = 0 then
    .finite d.negative .zero
  else if (decisiveExponent : Int) < d.exponent then
    .infinite d.negative
  else if d.exponent < -(decisiveExponent + (d.coefficient.log2 + 1) : Int) then
    .finite d.negative .zero
  else
    Binary64.ofRatio d.negative d.unitRatio.1 d.unitRatio.2

end Decimal

/-! ## Runs of digits -/

/-- The value of a run of decimal digits. -/
def digitsValue (digits : List Char) : Nat := Nat.ofDigitChars 10 digits 0

/-- The digits of a number, without leading zeros. -/
def digitsOf (n : Nat) : List Char := Nat.toDigits 10 n

theorem digitsValue_digitsOf (n : Nat) : digitsValue (digitsOf n) = n :=
  Nat.ofDigitChars_ten_toDigits

/-- An optional sign at the front of a text, and what follows it. -/
def takeSign : List Char → Bool × List Char
  | '-' :: rest => (true, rest)
  | '+' :: rest => (false, rest)
  | rest => (false, rest)

/-- Splits off the longest run of digits at the front. -/
def takeDigits (text : List Char) : List Char × List Char :=
  (text.takeWhile Char.isDigit, text.dropWhile Char.isDigit)

end StagedRollout
