/-
# StagedRollout.Wire.ReadError -- why a text is not the wanted record

A text fails to be a record of the wire format in one of three ways. It ends too early or it
is malformed, and then no record could be read from it; or it is well-formed up to some place
and holds there something that the record does not admit. Only the last has a wording that
others rely on, given by `Mismatch.message`.
-/
import StagedRollout.Json.Writer
import StagedRollout.Text.Quoted

namespace StagedRollout

/-- What stands where something else was expected. -/
inductive Found
  | null
  | bool (value : Bool)
  | int (value : Int)
  | float (value : Binary64)
  | text (content : String)
  | sequence
  | map
deriving DecidableEq

namespace Found

/-- The wording of what was found. -/
def message : Found → String
  | .null => "null"
  | .bool true => "boolean `true`"
  | .bool false => "boolean `false`"
  | .int i => "integer `" ++ String.ofList (intChars i) ++ "`"
  | .float x => "floating point `" ++ NumberNotation.stored.text x ++ "`"
  | .text content => "string " ++ quoted content
  | .sequence => "sequence"
  | .map => "map"

end Found

/-- Something well-formed that a record does not admit. -/
inductive Mismatch
  /-- A value of another kind. -/
  | wrongType (found : Found) (expected : String)
  /-- A value of the right kind that is not one of the admitted ones. -/
  | wrongValue (found : Found) (expected : String)
  /-- An array with too few items. -/
  | wrongLength (count : Nat) (expected : String)
  | missingField (name : String)
  | duplicateField (name : String)
  /-- A word outside a fixed vocabulary. -/
  | unknownWord (word : String) (known : List String)
  /-- A statement array that does not start with a statement's keyword. -/
  | unknownKeyword (keyword : String)
  /-- A negation of no node or of several. -/
  | negationArity (count : Nat)
  /-- An operand that is neither a number, nor a string, nor an array of strings. -/
  | operandKind
deriving DecidableEq

namespace Mismatch

/-- A word between backticks. -/
def ticked (word : String) : String := "`" ++ word ++ "`"

/-- The wording of a mismatch. -/
def message : Mismatch → String
  | .wrongType found expected => "invalid type: " ++ found.message ++ ", expected " ++ expected
  | .wrongValue found expected => "invalid value: " ++ found.message ++ ", expected " ++ expected
  | .wrongLength count expected =>
    "invalid length " ++ String.ofList (digitsOf count) ++ ", expected " ++ expected
  | .missingField name => "missing field " ++ ticked name
  | .duplicateField name => "duplicate field " ++ ticked name
  | .unknownWord word known =>
    "unknown variant " ++ ticked word ++ ", expected one of "
      ++ String.intercalate ", " (known.map ticked)
  | .unknownKeyword keyword => "unknown statement keyword '" ++ keyword ++ "'"
  | .negationArity count =>
    "'not' statement takes exactly 1 node, got " ++ String.ofList (digitsOf count)
  | .operandKind => "data did not match any variant of untagged enum BranchMappingOperand"

end Mismatch

/-- Why a text could not be read as a record. -/
inductive ReadError
  | fault (fault : Fault)
  | mismatch (mismatch : Mismatch)
deriving DecidableEq

namespace ReadError

/-- The wording of a read error. -/
def message : ReadError → String
  | .fault .cut => "the text ends before the value does"
  | .fault .malformed => "the text is not well-formed JSON"
  | .mismatch m => m.message

end ReadError

end StagedRollout
