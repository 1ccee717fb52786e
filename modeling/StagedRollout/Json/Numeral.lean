/-
# StagedRollout.Json.Numeral -- number literals

A number literal has a whole part without leading zeros, then optionally a point with at least
one digit and an exponent with at least one digit. `scanNumber` takes the longest such literal
from the front of a text.

A literal without point and exponent whose value fits the machine range of 64 bits is an
integer. Every other literal is the double nearest to it, and has no value when that double is
infinite. In particular `-0` is not an integer: it is the float negative zero.

No double, and no midpoint between two of them, has more than 768 digits, so as many of a whole
part are told apart. A whole part with more digits counts as lying above what it says, by less
than its last digit is worth. That matters for one kind of literal alone: a midpoint written with
so many zeros behind it is rounded up in size, not to the even neighbour.
-/
import StagedRollout.Number.Decimal
import StagedRollout.Json.Value
import StagedRollout.Json.Quote

namespace StagedRollout

/-- A number literal. -/
structure Numeral where
  /-- What the literal says. -/
  decimal : Decimal
  /-- It has neither point nor exponent. -/
  whole : Bool
  /-- Its whole part has more digits than are told apart. -/
  overlong : Bool
deriving DecidableEq, Inhabited

/-- A decimal that is larger in size, by a tenth of what its last digit is worth. -/
def Decimal.above (d : Decimal) : Decimal := ⟨d.negative, 10 * d.coefficient + 1, d.exponent - 1⟩

namespace Numeral

/-- How many sizes a signed 64-bit integer has on each side of zero: `2 ^ 63`. -/
def signedSpan : Nat := 9223372036854775808

/-- How many unsigned 64-bit integers there are: `2 ^ 64`. -/
def unsignedSpan : Nat := 18446744073709551616

/-- The integer that a literal denotes as an integer. -/
def toInt? (n : Numeral) : Option Int :=
  if n.whole then
    if n.decimal.negative then
      if n.decimal.coefficient ≠ 0 ∧ n.decimal.coefficient ≤ signedSpan then
        some (-n.decimal.coefficient)
      else none
    else if n.decimal.coefficient < unsignedSpan then some n.decimal.coefficient
    else none
  else none

/-- How many digits of a whole part are told apart. -/
def toldDigits : Nat := 768

/-- The decimal that a literal counts as. -/
def reading (n : Numeral) : Decimal := if n.overlong then n.decimal.above else n.decimal

/-- The value of a literal, unless it is out of range. -/
def value? (n : Numeral) : Option Json :=
  match n.toInt? with
  | some i => some (.int i)
  | none =>
    match n.reading.toBinary64 with
    | .finite negative m => some (.float (.finite negative m))
    | _ => none

end Numeral

/-- The fault of a literal that lacks a digit where the given text stands. -/
def missingDigit : List Char → Fault
  | [] => .cut
  | _ => .malformed

/-- The whole part: a single zero, or digits that do not start with one. -/
def takeWhole (text : List Char) : Except Fault (List Char × List Char) :=
  match takeDigits text with
  | ([], rest) => .error (missingDigit rest)
  | (['0'], rest) => .ok (['0'], rest)
  | ('0' :: _, _) => .error .malformed
  | (digits, rest) => .ok (digits, rest)

/-- The fraction digits behind a point; without a point there are none. -/
def takeFraction (text : List Char) : Except Fault (List Char × List Char) :=
  match text with
  | '.' :: text =>
    match takeDigits text with
    | ([], rest) => .error (missingDigit rest)
    | (digits, rest) => .ok (digits, rest)
  | rest => .ok ([], rest)

/-- The exponent behind its letter; without the letter there is none. -/
def takeExponent (text : List Char) : Except Fault (Option Int × List Char) :=
  match text with
  | [] => .ok (none, [])
  | mark :: text' =>
    if mark = 'e' ∨ mark = 'E' then
      let (negative, unsignedText) := takeSign text'
      match takeDigits unsignedText with
      | ([], rest) => .error (missingDigit rest)
      | (digits, rest) => .ok (some (signed negative (digitsValue digits)), rest)
    else .ok (none, text)

/-- A number literal behind its sign. -/
def scanUnsigned (negative : Bool) (text : List Char) : Except Fault (Numeral × List Char) := do
  let (whole, afterWhole) ← takeWhole text
  let (fraction, afterFraction) ← takeFraction afterWhole
  let (exponent, rest) ← takeExponent afterFraction
  return (⟨⟨negative, digitsValue (whole ++ fraction), exponent.getD 0 - fraction.length⟩,
    fraction = [] ∧ exponent = none, Numeral.toldDigits < whole.length⟩, rest)

/-- The number literal at the front of a text, and what follows it. -/
def scanNumber : List Char → Except Fault (Numeral × List Char)
  | '-' :: text => scanUnsigned true text
  | text => scanUnsigned false text

end StagedRollout
