/-
# StagedRollout.Mapping.Operator -- the comparison of a predicate

Twelve operators compare a client's value with an operand. Each has one token, which is what
the wire format knows it by; `Operator.ofToken?` inverts `Operator.token`.
-/
import StagedRollout.Wire.Reader

namespace StagedRollout

/-- How a client's value is compared with an operand. The last four compare the hash of the
value, taken as a fraction. -/
inductive Operator
  | equal
  | different
  | less
  | greater
  | atMost
  | atLeast
  | oneOf
  | regex
  | hashLess
  | hashAtMost
  | hashGreater
  | hashAtLeast
deriving DecidableEq, Inhabited

namespace Operator

/-- All operators, in the order in which messages list them. -/
def all : List Operator :=
  [.equal, .different, .less, .greater, .atMost, .atLeast, .oneOf, .regex, .hashLess,
    .hashAtMost, .hashGreater, .hashAtLeast]

/-- The name of an operator in the wire format. -/
def token : Operator → String
  | .equal => "=="
  | .different => "!="
  | .less => "<"
  | .greater => ">"
  | .atMost => "<="
  | .atLeast => ">="
  | .oneOf => "in"
  | .regex => "regex"
  | .hashLess => "hash_lt"
  | .hashAtMost => "hash_lte"
  | .hashGreater => "hash_gt"
  | .hashAtLeast => "hash_gte"

/-- The operator of a token. -/
def ofToken? (token : String) : Option Operator := all.find? (·.token = token)

theorem ofToken?_token (o : Operator) : ofToken? o.token = some o := by cases o <;> rfl

/-- The operator of a token in a text. -/
def ofToken (token : String) : ReadResult Operator :=
  match ofToken? token with
  | some o => .ok o
  | none => .mismatch (.unknownWord token (all.map Operator.token))

/-- Reads an operator: its token as a string, or an object that has the token as its only key
with null as its value. Anything else in its place is malformed at its first character. -/
def read (room : Nat) : Outline → ReadResult Operator
  | .text content => do ofToken (← ReadResult.ofText content)
  | .object members => opening room fun _ =>
    match members with
    | .cut false => .fault .cut
    | .member key value tail => do
      let o ← ofToken (← ReadResult.ofText key)
      readUnit value
      tail.finish
      return o
    | _ => .fault .malformed
  | .missing => .fault .cut
  | .brokenText reading _ => .fault reading
  | _ => .fault .malformed

/-- The wire form of an operator. -/
def toJson (o : Operator) : Json := .text o.token

end Operator

end StagedRollout
