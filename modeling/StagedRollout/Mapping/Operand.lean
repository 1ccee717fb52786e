/-
# StagedRollout.Mapping.Operand -- what a client's value is compared with

An operand is a number, a string or a list of strings. Any number that the wire format can
spell becomes a double when it is read. When it is written, a whole number of moderate size is
spelled as an integer, so that `5.0` comes back as `5`; a number that is not finite has no
spelling, and its operand cannot be written.
-/
import StagedRollout.Wire.Reader

namespace StagedRollout

/-- The right-hand side of a predicate. -/
inductive Operand
  | number (value : Binary64)
  | text (content : String)
  | texts (contents : List String)
deriving DecidableEq, Inhabited

/-- The reason why a value cannot be written: an operand that is not a finite number. -/
structure Unwritable where
  operand : Binary64
deriving DecidableEq

/-- The wording of that reason. -/
def Unwritable.message (u : Unwritable) : String :=
  "operand " ++ NumberNotation.spelledOut.text u.operand ++ " is not a finite number"

/-- A value as it would be written. -/
abbrev Written := Except Unwritable Json

/-- The text of a value inside a message, where it has to be shown even if it cannot be
written. -/
def Written.shown : Written → String
  | .ok json => json.compact
  | .error u => "<unserializable: " ++ u.message ++ ">"

namespace Operand

/-! ## Reading -/

/-- The double of a number as it was read. An integer is rounded like any other numeral. -/
def ofNumber? : Json → Option Binary64
  | .int i => some (Decimal.toBinary64 ⟨i < 0, i.natAbs, 0⟩)
  | .float x => some x
  | _ => none

/-- The strings of a list that holds nothing else. -/
def ofTexts? : List Json → Option (List String)
  | [] => some []
  | .text content :: rest => (content :: ·) <$> ofTexts? rest
  | _ :: _ => none

/-- The operand that a value stands for. -/
def ofJson? : Json → Option Operand
  | .text content => some (.text content)
  | .array items => .texts <$> ofTexts? items
  | json => .number <$> ofNumber? json

/-- Reads an operand. The whole value is read before its kind is looked at. -/
def read (room : Nat) (outline : Outline) : ReadResult Operand := do
  let json ← ReadResult.ofText (outline.read room)
  match ofJson? json with
  | some operand => return operand
  | none => .mismatch .operandKind

/-! ## Writing -/

/-- The largest whole number that is spelled without a fraction: `2 ^ 53 - 1`. -/
def largestPlainWhole : Nat := 9007199254740991

/-- The spelling of a finite number. -/
def numberJson (x : Binary64) : Json :=
  match x.toInt? with
  | some i => if i.natAbs ≤ largestPlainWhole then .int i else .float x
  | none => .float x

/-- The wire form of an operand. -/
def toJson : Operand → Written
  | .number x => if x.isFinite then .ok (numberJson x) else .error ⟨x⟩
  | .text content => .ok (.text content)
  | .texts contents => .ok (.array (contents.map .text))

/-- Equality of operands, where numbers are compared as numbers. -/
def same : Operand → Operand → Bool
  | .number x, .number y => x.same y
  | .text a, .text b => a = b
  | .texts a, .texts b => a = b
  | _, _ => false

end Operand

end StagedRollout
