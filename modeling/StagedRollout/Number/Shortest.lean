/-
# StagedRollout.Number.Shortest -- the fewest digits that read back

Among the decimals that are read back as a given double, the written one has the fewest
digits, and of those it is the nearest to the double. Fewest digits means the highest last
place: the search runs over the places from the top down and asks, at each, whether one of
the two multiples of that power of ten next to the value reads back. The test is the reader
itself, `Decimal.toBinary64`.

The search cannot fail. Every double is a whole multiple of `10⁻¹⁰⁷⁴`, since the unit
`2⁻¹⁰⁷⁴` is, so the lowest place is answered by the exact value.

Two candidates may read back at the same distance; which of them is taken is a choice of the
notation, given as a `TieRule`.
-/
import StagedRollout.Number.Decimal

namespace StagedRollout

/- Powers of natural numbers are the core library's own. -/
attribute [local instance (2000)] instPowNat

/-- Which of two equally near candidates is taken. -/
inductive TieRule
  | toEven
  | up
deriving DecidableEq

namespace Magnitude

/-- The value in multiples of `10 ^ place`, as an exact quotient. -/
def placeRatio (m : Magnitude) (place : Int) : Nat × Nat :=
  match place with
  | .ofNat e => (m.units, unitsOfOne * 10 ^ e)
  | .negSucc e => (m.units * 10 ^ (e + 1), unitsOfOne)

/-- The exact value, written to the lowest place. -/
def exactDecimal (m : Magnitude) : Decimal := ⟨false, m.units * 5 ^ unitDepth, -unitDepth⟩

/-- Whether a decimal reads back as this value. -/
def readsBack (m : Magnitude) (d : Decimal) : Bool := d.toBinary64 = .finite false m

/-- The upper neighbour is preferred when it is nearer, or as near and chosen by the rule. -/
def prefersUpper (tie : TieRule) (num den : Nat) : Bool :=
  match compare (2 * (num % den)) den with
  | .lt => false
  | .gt => true
  | .eq => tie = .up || num / den % 2 = 1

/-- The neighbour of the value at one place that reads back; of two, the preferred one. -/
def neighbour? (tie : TieRule) (m : Magnitude) (place : Int) : Option Decimal :=
  let (num, den) := m.placeRatio place
  let lower : Decimal := ⟨false, num / den, place⟩
  let upper : Decimal := ⟨false, num / den + 1, place⟩
  match m.readsBack lower, m.readsBack upper with
  | true, true => some (if prefersUpper tie num den then upper else lower)
  | true, false => some lower
  | false, true => some upper
  | false, false => none

/-- Searches the places from `steps - 1074` down to the lowest. -/
def shortestFrom (tie : TieRule) (m : Magnitude) : Nat → Decimal
  | 0 => m.exactDecimal
  | steps + 1 =>
    match neighbour? tie m ((steps + 1 : Nat) - (unitDepth : Int)) with
    | some d => d
    | none => shortestFrom tie m steps

/-- Where the search starts: the place of more than twice the value, at and above which no
positive multiple reads back. A bit is less than 0.302 digits. -/
def startingSteps (m : Magnitude) : Nat := 302 * m.units.log2 / 1000 + 754

/-- The decimal with the fewest digits that reads back as the value. -/
def shortest (tie : TieRule) (m : Magnitude) : Decimal :=
  if m.units = 0 then ⟨false, 0, 0⟩ else shortestFrom tie m m.startingSteps

end Magnitude

end StagedRollout
