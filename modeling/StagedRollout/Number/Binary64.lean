/-
# StagedRollout.Number.Binary64 -- double-precision numbers as exact counts

Percent operands are double-precision floating point numbers. They are kept here as exact
data: a finite number is a sign and a **magnitude**, and a magnitude is a count of the least
positive double, `2⁻¹⁰⁷⁴`. Every finite double is such a count, so order, numeric equality
and integrality are questions about natural numbers, with no machine arithmetic involved.

A count is the magnitude of a double exactly when at most 53 bits follow its leading bit's
position down to the last one set, that is, when `2 ^ (log2 - 52)` divides it, and it lies
below `2 ^ 2098`, the place of the value `2¹⁰²⁴`. Both facts are carried by the type.

`x ≤ y` is the order of the numbers themselves: the two zeros are equal in it, an infinity
lies beyond every finite number, and the not-a-number value is related to nothing.
-/

namespace StagedRollout

/- Powers of natural numbers are the core library's own. -/
attribute [local instance (2000)] instPowNat

/-! ## The values -/

/-- How many bits follow the leading bit of a double. -/
def fractionBits : Nat := 52

/-- How many halvings of the number one lead to the unit. -/
def unitDepth : Nat := 1074

/-- How many doublings of the unit lead out of the finite range. -/
def unitSpan : Nat := 2098

/-- How many units make the number one. -/
def unitsOfOne : Nat := 2 ^ unitDepth

/-- The least count that is too large for a finite double. -/
def unitsLimit : Nat := 2 ^ unitSpan

/-- The size of a finite double, as a count of `2⁻¹⁰⁷⁴`. -/
structure Magnitude where
  units : Nat
  aligned : 2 ^ (units.log2 - fractionBits) ∣ units
  bounded : units < unitsLimit
deriving DecidableEq

/-- A double-precision number. The two zeros are told apart by their sign; there is one
not-a-number value. -/
inductive Binary64
  | nan
  | infinite (negative : Bool)
  | finite (negative : Bool) (magnitude : Magnitude)
deriving DecidableEq

/-- A natural number with a sign in front. -/
def signed (negative : Bool) (n : Nat) : Int := if negative then -(n : Int) else n

namespace Magnitude

/-- The count of the value zero. -/
def zero : Magnitude := ⟨0, by decide, by decide +kernel⟩

/-- The count of the value one. -/
def one : Magnitude := ⟨unitsOfOne, by decide +kernel, by decide +kernel⟩

instance : Inhabited Magnitude := ⟨zero⟩

/-- The exponent and fraction fields of a magnitude. Counts below `2 ^ 52` are subnormal and
have exponent field zero; from there on the field counts the doublings. -/
def word (m : Magnitude) : Nat :=
  if m.units < 2 ^ fractionBits then
    m.units
  else
    let shift := m.units.log2 - fractionBits
    (shift + 1) * 2 ^ fractionBits + (m.units / 2 ^ shift - 2 ^ fractionBits)

end Magnitude

namespace Binary64

/-- Positive zero. -/
def zero : Binary64 := .finite false .zero

/-- The number one. -/
def one : Binary64 := .finite false .one

instance : Inhabited Binary64 := ⟨zero⟩

/-- Neither infinite nor not-a-number. -/
def isFinite : Binary64 → Bool
  | .finite _ _ => true
  | _ => false

/-! ## Order and numeric equality -/

/-- The place of a number on the line, in units of `2⁻¹⁰⁷⁴`. An infinity stands at the first
place that no finite number reaches, and the not-a-number value has no place. -/
def place? : Binary64 → Option Int
  | .nan => none
  | .infinite negative => some (signed negative unitsLimit)
  | .finite negative m => some (signed negative m.units)

/-- Two places are compared as integers; whatever lacks a place is related to nothing. -/
def PlacedLE : Option Int → Option Int → Prop
  | some a, some b => a ≤ b
  | _, _ => False

instance : (a b : Option Int) → Decidable (PlacedLE a b)
  | some a, some b => inferInstanceAs (Decidable (a ≤ b))
  | none, _ => isFalse id
  | some _, none => isFalse id

instance : LE Binary64 := ⟨fun x y => PlacedLE x.place? y.place?⟩

instance (x y : Binary64) : Decidable (x ≤ y) :=
  inferInstanceAs (Decidable (PlacedLE x.place? y.place?))

/-- Numeric equality: each is at most the other. Zero equals negative zero, and the
not-a-number value equals nothing, itself included. -/
def same (x y : Binary64) : Bool := x ≤ y && y ≤ x

/-! ## Integers -/

/-- The integer that a number is equal to, if there is one. -/
def toInt? : Binary64 → Option Int
  | .finite negative m =>
    if m.units % unitsOfOne = 0 then some (signed negative (m.units / unitsOfOne)) else none
  | _ => none

/-- The integer nearest to a finite number; a half goes away from zero. -/
def nearestInt? : Binary64 → Option Int
  | .finite negative m => some (signed negative ((2 * m.units + unitsOfOne) / (2 * unitsOfOne)))
  | _ => none

/-! ## The interchange format -/

/-- The sign field stands above eleven exponent bits and the fraction. -/
def signBit (negative : Bool) : Nat := if negative then 2 ^ (fractionBits + 11) else 0

/-- The 64-bit interchange word: sign, exponent field, fraction field. -/
def word : Binary64 → Nat
  | .nan => 2047 * 2 ^ fractionBits + 2 ^ (fractionBits - 1)
  | .infinite negative => signBit negative + 2047 * 2 ^ fractionBits
  | .finite negative m => signBit negative + m.word

end Binary64

end StagedRollout
