/-
# StagedRollout.Number.Notation -- how doubles are spelled

A **notation** fixes what the digits alone leave open: which powers of ten are written
positionally, how a whole number is marked, and which of two equally near digit strings is
taken. The program uses two. Stored texts keep a fraction digit on every float and turn to an
exponent outside a small range (`100.0`, `1.5e+16`); messages spell every number out in full
(`100`, `15000000000000000`).
-/
import StagedRollout.Number.Shortest

namespace StagedRollout

/-- The choices of a number notation. The exponent asked about is that of the first digit. -/
structure NumberNotation where
  tie : TieRule
  positional : Int → Bool
  wholeMark : List Char

namespace NumberNotation

/-- The notation of stored texts. -/
def stored : NumberNotation := ⟨.toEven, fun e => -5 ≤ e && e ≤ 15, ['.', '0']⟩

/-- The notation of messages. -/
def spelledOut : NumberNotation := ⟨.up, fun _ => true, []⟩

/-- Digits with the point where the last place says. A number below one starts with `0.`. -/
def positionalText (wholeMark : List Char) (digits : List Char) : (place : Int) → List Char
  | .ofNat zeros => digits ++ List.replicate zeros '0' ++ wholeMark
  | .negSucc k =>
    if k + 1 < digits.length then
      digits.take (digits.length - (k + 1)) ++ '.' :: digits.drop (digits.length - (k + 1))
    else
      '0' :: '.' :: (List.replicate (k + 1 - digits.length) '0' ++ digits)

/-- One digit, the others after a point, and the exponent with its sign. -/
def scientificText (digits : List Char) (exponent : Int) : List Char :=
  digits.take 1 ++ (if digits.length ≤ 1 then [] else '.' :: digits.drop 1)
    ++ 'e' :: (if exponent < 0 then '-' else '+') :: digitsOf exponent.natAbs

/-- The text of a decimal that carries no sign. -/
def sizeText (style : NumberNotation) (d : Decimal) : List Char :=
  let digits := digitsOf d.coefficient
  let exponent := d.exponent + (digits.length - 1 : Nat)
  if style.positional exponent then
    positionalText style.wholeMark digits d.exponent
  else
    scientificText digits exponent

/-- A minus sign, or nothing. -/
def signText (negative : Bool) : List Char := if negative then ['-'] else []

/-- The text of a double. -/
def chars (style : NumberNotation) : Binary64 → List Char
  | .nan => ['N', 'a', 'N']
  | .infinite negative => signText negative ++ ['i', 'n', 'f']
  | .finite negative m => signText negative ++ style.sizeText (m.shortest style.tie)

/-- The text of a double, as a string. -/
def text (style : NumberNotation) (x : Binary64) : String := String.ofList (style.chars x)

end NumberNotation

end StagedRollout
