/-
# StagedRollout.Text.Quoted -- texts quoted in messages

A message quotes a foreign text between double quotes, on one line and without ambiguity: the
quote, the backslash and the four usual controls have short escapes, and any other character
that is not printable is written by its code point in hexadecimal.
-/
import StagedRollout.Text.Printable

namespace StagedRollout

/-- How one character stands in a quoted text. -/
def quotedChar (c : Char) : List Char :=
  match c with
  | '\x00' => ['\\', '0']
  | '\t' => ['\\', 't']
  | '\r' => ['\\', 'r']
  | '\n' => ['\\', 'n']
  | '"' => ['\\', '"']
  | '\\' => ['\\', '\\']
  | c =>
    if isPrintable c then [c]
    else ['\\', 'u', '{'] ++ Nat.toDigits 16 c.toNat ++ ['}']

/-- A text between double quotes, with escapes. -/
def quoted (text : String) : String :=
  String.ofList ('"' :: (text.toList.flatMap quotedChar ++ ['"']))

end StagedRollout
