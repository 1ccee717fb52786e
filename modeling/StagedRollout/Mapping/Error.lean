/-
# StagedRollout.Mapping.Error -- what can be wrong with a mapping or a rollout

Everything that can go wrong between the text of a mapping and a rollout on it is one type of
causes. None of them passes with time: each is decided by the input alone. A cause carries the
values that it is about, and `RolloutError.message` words it.
-/
import StagedRollout.Mapping.Text

namespace StagedRollout

/-- A shape that a value was asked to have. -/
inductive Shape
  | statement
  | conjunction
  | predicate
  | number
  | text
  | standardMapping
  | unconstrainedRollout
deriving DecidableEq

/-- The wording of a shape. -/
def Shape.message : Shape → String
  | .statement => "a statement"
  | .conjunction => "an 'and' statement"
  | .predicate => "a predicate object"
  | .number => "a number"
  | .text => "a string"
  | .standardMapping => "a single always-true entry"
  | .unconstrainedRollout => "an unconstrained rollout"

/-- Something that is not a percentage, as it was given. -/
inductive PercentInput
  | int (value : Int)
  | number (value : Binary64)
  | text (content : String)
deriving DecidableEq

/-- A rejected percentage as it is shown. -/
def PercentInput.message : PercentInput → String
  | .int i => String.ofList (intChars i)
  | .number x => NumberNotation.spelledOut.text x
  | .text content => content

/-- The part that a branch plays in a rollout. -/
inductive BranchRole
  | default
  | rolledOut
deriving DecidableEq

/-- The wording of a part. -/
def BranchRole.message : BranchRole → String
  | .default => "default"
  | .rolledOut => "rolled out"

/-- What is wrong with a mapping, a rollout on it, or a value for one. -/
inductive RolloutError
  /-- The text is not a mapping. -/
  | unreadable (cause : ReadError) (raw : String)
  /-- The mapping has no text. -/
  | unwritable (cause : Unwritable)
  | versionMismatch (expected actual : UInt32)
  /-- A value has another shape than the one asked for. -/
  | unexpectedShape (expected : Shape) (value : Written)
  | invalidPercent (value : PercentInput)
  /-- The mapping is neither kind of rollout. -/
  | notARollout (mapping : Mapping)
  /-- No entry is a rollout for the runtime version. -/
  | noMatchingRollout (runtimeVersion : String)
  /-- A mapping that was put together is no rollout for the runtime version. -/
  | postconditionFailed (runtimeVersion : String)
  /-- A branch is not the one that the rollout names. -/
  | branchIdMismatch (role : BranchRole) (expected actual : String)
  | branchNotFound (channel branchId : String)
  /-- The mapping of a channel is not a standard one. -/
  | notStandardMapping (channel mapping : String)

namespace RolloutError

/-- The wording of an error. -/
def message : RolloutError → String
  | .unreadable cause raw =>
    "failed to parse branch mapping: " ++ cause.message ++ " in " ++ raw
  | .unwritable cause => "failed to serialize branch mapping: " ++ cause.message
  | .versionMismatch expected actual =>
    "branch mapping version mismatch: expected " ++ String.ofList (digitsOf expected.toNat)
      ++ ", got " ++ String.ofList (digitsOf actual.toNat)
  | .unexpectedShape expected value => "expected " ++ expected.message ++ ", got " ++ value.shown
  | .invalidPercent value =>
    "percent must be an integer between 0 and 100 inclusive, got " ++ value.message
  | .notARollout mapping => "branch mapping is not a rollout: " ++ mapping.toJson.shown
  | .noMatchingRollout runtimeVersion =>
    "no rollout found for runtime version '" ++ runtimeVersion ++ "'"
  | .postconditionFailed runtimeVersion =>
    "constructed branch mapping is not a rollout for runtime version '" ++ runtimeVersion ++ "'"
  | .branchIdMismatch role expected actual =>
    role.message ++ " branch id mismatch: rollout expects '" ++ expected ++ "', got '" ++ actual
      ++ "'"
  | .branchNotFound channel branchId =>
    "branch '" ++ branchId ++ "' not found in channel '" ++ channel ++ "'"
  | .notStandardMapping channel mapping =>
    "channel '" ++ channel ++ "' does not have a standard branch mapping: " ++ mapping

end RolloutError

/-! ## Texts and versions -/

namespace Mapping

/-- Reads a mapping from its text, whatever its version. -/
def parse (raw : String) : Except RolloutError Mapping :=
  match readWhole Mapping.read raw with
  | .ok m => .ok m
  | .error cause => .error (.unreadable cause raw)

/-- The text of a mapping. -/
def toText (m : Mapping) : Except RolloutError String :=
  match m.toJson with
  | .ok json => .ok json.compact
  | .error cause => .error (.unwritable cause)

/-- Asks for a version. -/
def checkVersion (m : Mapping) (expected : UInt32) : Except RolloutError Unit :=
  if m.version = expected then .ok () else .error (.versionMismatch expected m.version)

/-- The branch of a standard mapping. -/
def standardBranch (m : Mapping) : Except RolloutError String :=
  match m.standardBranch? with
  | some branchId => .ok branchId
  | none => .error (.unexpectedShape .standardMapping m.toJson)

end Mapping

/-! ## Asking for a shape -/

namespace Node

/-- The keyword and the nodes of a combination. -/
def asStatement (node : Node) : Except RolloutError (String × List Node) :=
  match node.statement? with
  | some statement => .ok statement
  | none => .error (.unexpectedShape .statement node.toJson)

/-- The nodes of an `and`. -/
def asConjunction : Node → Except RolloutError (List Node)
  | .all nodes => .ok nodes
  | node => .error (.unexpectedShape .conjunction node.toJson)

/-- The predicate that a node consists of. -/
def asPredicate : Node → Except RolloutError Predicate
  | .predicate p => .ok p
  | node => .error (.unexpectedShape .predicate node.toJson)

end Node

namespace Operand

/-- The number that an operand is. -/
def asNumber : Operand → Except RolloutError Binary64
  | .number x => .ok x
  | operand => .error (.unexpectedShape .number operand.toJson)

/-- The string that an operand is. -/
def asText : Operand → Except RolloutError String
  | .text content => .ok content
  | operand => .error (.unexpectedShape .text operand.toJson)

end Operand

end StagedRollout
