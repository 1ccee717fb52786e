/-
# StagedRollout.Mapping.Node -- the logic that selects a branch

A node is the literal `"true"`, a predicate on one value of the client, or a combination of
nodes by `and`, `or` and `not`. In the wire format a predicate is an object of three fields
and a combination is an array that starts with its keyword:

    ["and", {"operand":"1.0.0", "clientKey":"runtimeVersion", "branchMappingOperator":"=="},
            {"operand":0.1, "clientKey":"rolloutToken", "branchMappingOperator":"hash_lt"}]
-/
import StagedRollout.Mapping.Operator
import StagedRollout.Mapping.Operand

namespace StagedRollout

/-- A comparison of the client's value under a key with an operand. -/
structure Predicate where
  operand : Operand
  clientKey : String
  operator : Operator
deriving DecidableEq, Inhabited

/-- The logic of an entry. -/
inductive Node
  | alwaysTrue
  | predicate (p : Predicate)
  | all (nodes : List Node)
  | any (nodes : List Node)
  | not (node : Node)
deriving Inhabited

/-! ## Kinds of nodes -/

namespace Node

/-- The literal `"true"`. -/
def isAlwaysTrue : Node → Bool
  | .alwaysTrue => true
  | _ => false

/-- A single comparison. -/
def isPredicate : Node → Bool
  | .predicate _ => true
  | _ => false

/-- A combination that holds when all of its nodes do. -/
def isAll : Node → Bool
  | .all _ => true
  | _ => false

/-- A combination that holds when any of its nodes does. -/
def isAny : Node → Bool
  | .any _ => true
  | _ => false

/-- The negation of a node. -/
def isNot : Node → Bool
  | .not _ => true
  | _ => false

/-- The keyword and the nodes of a combination. -/
def statement? : Node → Option (String × List Node)
  | .all nodes => some ("and", nodes)
  | .any nodes => some ("or", nodes)
  | .not node => some ("not", [node])
  | _ => none

/-- A combination of any kind. -/
def isStatement (node : Node) : Bool := node.statement?.isSome

/-- The combination of nodes by a keyword. -/
def ofStatement (keyword : String) (nodes : List Node) : ReadResult Node :=
  match keyword, nodes with
  | "and", nodes => .ok (.all nodes)
  | "or", nodes => .ok (.any nodes)
  | "not", [node] => .ok (.not node)
  | "not", nodes => .mismatch (.negationArity nodes.length)
  | keyword, _ => .mismatch (.unknownKeyword keyword)

/-- A statement is made again from its keyword and its nodes. -/
theorem ofStatement_statement? {node : Node} {keyword : String} {nodes : List Node}
    (h : node.statement? = some (keyword, nodes)) : ofStatement keyword nodes = .ok node := by
  cases node <;> simp [statement?] at h <;> obtain ⟨rfl, rfl⟩ := h <;> rfl

end Node

/-! ## Writing -/

/-- The wire form of a predicate. -/
def Predicate.toJson (p : Predicate) : Written := do
  let operand ← p.operand.toJson
  return .object [("operand", operand), ("clientKey", .text p.clientKey),
    ("branchMappingOperator", p.operator.toJson)]

mutual

/-- The wire form of a node. What cannot be written is reported for the first operand that is
not finite, in written order. -/
def Node.toJson : Node → Written
  | .alwaysTrue => .ok (.text "true")
  | .predicate p => p.toJson
  | .all nodes => (fun js => .array (.text "and" :: js)) <$> nodesToJson nodes
  | .any nodes => (fun js => .array (.text "or" :: js)) <$> nodesToJson nodes
  | .not node => (fun j => .array [.text "not", j]) <$> node.toJson

/-- The wire forms of nodes in order. -/
def nodesToJson : List Node → Except Unwritable (List Json)
  | [] => .ok []
  | node :: rest => do
    let json ← node.toJson
    let jsons ← nodesToJson rest
    return json :: jsons

end

/-! ## Equality -/

/-- Equality of predicates, where numbers are compared as numbers. -/
def Predicate.same (p q : Predicate) : Bool :=
  p.operand.same q.operand && p.clientKey = q.clientKey && p.operator = q.operator

mutual

/-- Equality of nodes, where numbers are compared as numbers. -/
def Node.same : Node → Node → Bool
  | .alwaysTrue, .alwaysTrue => true
  | .predicate p, .predicate q => p.same q
  | .all as, .all bs => sameNodes as bs
  | .any as, .any bs => sameNodes as bs
  | .not a, .not b => a.same b
  | _, _ => false

/-- Equality of lists of nodes, position by position. -/
def sameNodes : List Node → List Node → Bool
  | [], [] => true
  | a :: as, b :: bs => a.same b && sameNodes as bs
  | _, _ => false

end

/-! ## Reading -/

/-- What has been read of a predicate. -/
structure PredicateDraft where
  operand : Option Operand
  clientKey : Option String
  operator : Option Operator

namespace PredicateDraft

/-- Nothing has been read. -/
def empty : PredicateDraft := ⟨none, none, none⟩

/-- Reads one member of a predicate object. -/
def take (room : Nat) (draft : PredicateDraft) (key : String) (value : Outline) :
    ReadResult PredicateDraft :=
  match key with
  | "operand" => do
    let operand ← readOnce key draft.operand fun _ => Operand.read room value
    return { draft with operand }
  | "clientKey" => do
    let clientKey ← readOnce key draft.clientKey fun _ => readText value
    return { draft with clientKey }
  | "branchMappingOperator" => do
    let operator ← readOnce key draft.operator fun _ => Operator.read room value
    return { draft with operator }
  | _ => skipMember draft value

/-- The predicate, if no field is missing. -/
def finish (draft : PredicateDraft) : ReadResult Predicate := do
  let operand ← required "operand" draft.operand
  let clientKey ← required "clientKey" draft.clientKey
  let operator ← required "branchMappingOperator" draft.operator
  return { operand, clientKey, operator }

end PredicateDraft

/-- Reads the members of a predicate object. -/
def Predicate.read (room : Nat) (members : Members) : ReadResult Predicate := do
  let draft ← members.gather (PredicateDraft.take room) .empty
  draft.finish

namespace Node

/-- What may stand in the place of a node. -/
def expected : String := "\"true\", a predicate object, or a statement array"

end Node

mutual

/-- Reads a node. The keyword of a statement is read first and judged last, when all of its
nodes have been read. -/
def Node.read (room : Nat) : Outline → ReadResult Node
  | .text content => do
    let word ← ReadResult.ofText content
    if word = "true" then return .alwaysTrue
    else .mismatch (.wrongValue (.text word) Node.expected)
  | .object members => opening room fun room => .predicate <$> Predicate.read room members
  | .array items =>
    match room, items with
    | 0, _ => .fault .malformed
    | _, .closed => .mismatch (.wrongLength 0 Node.expected)
    | _, .cut _ => .fault .cut
    | _, .malformed => .fault .malformed
    | room + 1, .item head tail => do
      let keyword ← readText head
      let nodes ← readNodes room tail
      Node.ofStatement keyword nodes
  | outline => outline.refuse Node.expected

/-- Reads the nodes of a statement. -/
def readNodes (room : Nat) : Items → ReadResult (List Node)
  | .closed => .ok []
  | .cut _ => .fault .cut
  | .malformed => .fault .malformed
  | .item head tail => do
    let node ← Node.read room head
    let nodes ← readNodes room tail
    return node :: nodes

end

end StagedRollout
