/-
# StagedRollout.Number.FreeText -- doubles typed by hand

The numeral that a person may type for a percentage: an optional sign, then digits with at
most one point among or around them and at least one digit in all, then optionally a letter
`e` and a signed whole exponent. `nan`, `inf` and `infinity` stand for themselves in letters
of either case. The text is read whole: a blank, or anything after the numeral, spoils it.
-/
import StagedRollout.Number.Decimal

namespace StagedRollout

namespace Decimal

/-- The exponent part at the end of a text; nothing at all means zero. -/
def exponentPart? : List Char → Option Int
  | [] => some 0
  | mark :: rest =>
    if mark = 'e' ∨ mark = 'E' then
      let (negative, digits) := takeSign rest
      if digits ≠ [] ∧ digits.all Char.isDigit then some (signed negative (digitsValue digits))
      else none
    else
      none

/-- The digits after a point, if a point is next, and the rest. -/
def fractionPart : List Char → List Char × List Char
  | '.' :: rest => takeDigits rest
  | rest => ([], rest)

/-- A numeral without its sign. -/
def ofUnsignedText? (negative : Bool) (text : List Char) : Option Decimal :=
  let (whole, afterWhole) := takeDigits text
  let (fraction, afterFraction) := fractionPart afterWhole
  if whole = [] ∧ fraction = [] then
    none
  else
    (exponentPart? afterFraction).map fun exponent =>
      ⟨negative, digitsValue (whole ++ fraction), exponent - fraction.length⟩

end Decimal

namespace Binary64

/-- A value that is named by a word. -/
def ofWord? (negative : Bool) (word : List Char) : Option Binary64 :=
  match String.ofList (word.map Char.toLower) with
  | "nan" => some .nan
  | "inf" | "infinity" => some (.infinite negative)
  | _ => none

/-- The double that a whole text stands for. -/
def ofText? (text : List Char) : Option Binary64 :=
  let (negative, rest) := takeSign text
  ofWord? negative rest <|> (Decimal.ofUnsignedText? negative rest).map Decimal.toBinary64

end Binary64

end StagedRollout
