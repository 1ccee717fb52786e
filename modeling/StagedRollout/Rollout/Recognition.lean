/-
# StagedRollout.Rollout.Recognition -- which mappings are rollouts

A rollout sends a share of the clients to a new branch and leaves the others on the default
one. A **share predicate** draws the line: it holds for the clients whose hashed rollout token
lies below a fraction. Two kinds of mappings are rollouts.

* An **unconstrained** rollout has exactly two entries, a share predicate and then the
  fallback. It concerns every client.
* A **constrained** rollout has a fallback and at least one entry whose logic is the `and` of
  a share predicate with a predicate that fixes the client's runtime version, in either order.
  Each such entry concerns the clients of its version.

Recognition looks at the shape alone, so a mapping written by hand counts as well.
-/
import StagedRollout.Mapping.Basic

namespace StagedRollout

/-- The key of the value by which clients are spread over the branches. -/
def rolloutTokenKey : String := "rolloutToken"

/-- The key of a client's runtime version. -/
def runtimeVersionKey : String := "runtimeVersion"

/-! ## Predicates and nodes -/

namespace Binary64

/-- A number from zero to one. -/
def isFraction (x : Binary64) : Bool := zero ≤ x && x ≤ one

end Binary64

namespace Operand

/-- A number from zero to one. -/
def isFraction : Operand → Bool
  | .number x => x.isFraction
  | _ => false

/-- The content of a string operand. -/
def text? : Operand → Option String
  | .text content => some content
  | _ => none

end Operand

namespace Predicate

/-- Compares the value under a given key by a given operator. -/
def compares (p : Predicate) (clientKey : String) (operator : Operator) : Bool :=
  p.clientKey = clientKey && p.operator = operator

/-- Holds for a share of the clients. -/
def isShare (p : Predicate) : Bool :=
  p.compares rolloutTokenKey .hashLess && p.operand.isFraction

/-- The runtime version that a predicate fixes. -/
def runtimeVersion? (p : Predicate) : Option String :=
  if p.compares runtimeVersionKey .equal then p.operand.text? else none

/-- A predicate that fixes a runtime version for a share, with that share. -/
def scoping? (p share : Predicate) : Option (String × Predicate) :=
  p.runtimeVersion?.bind fun version => if share.isShare then some (version, share) else none

end Predicate

namespace Node

/-- A share predicate and nothing else. -/
def isShare : Node → Bool
  | .predicate p => p.isShare
  | _ => false

/-- The runtime version and the share predicate of a constrained rollout. -/
def constrained? : Node → Option (String × Predicate)
  | .all [.predicate a, .predicate b] => a.scoping? b <|> b.scoping? a
  | _ => none

/-- The `and` of a runtime version with a share. -/
def isConstrained (node : Node) : Bool := node.constrained?.isSome

/-- The runtime version that a constrained rollout concerns. -/
def runtimeVersion? (node : Node) : Option String := node.constrained?.map Prod.fst

end Node

/-! ## Mappings -/

namespace Entry

/-- The runtime version that an entry's rollout concerns. -/
def runtimeVersion? (entry : Entry) : Option String := entry.logic.runtimeVersion?

/-- An entry that is a rollout for a runtime version. -/
def targets (runtimeVersion : String) (entry : Entry) : Bool :=
  entry.runtimeVersion? = some runtimeVersion

end Entry

namespace Mapping

/-- The rolled-out entry, its share predicate, and the fallback of an unconstrained rollout. -/
def unconstrained? (m : Mapping) : Option (Entry × Predicate × Entry) :=
  match m.entries with
  | [rolledOut, fallback] =>
    match rolledOut.logic with
    | .predicate p =>
      if p.isShare && fallback.isFallback then some (rolledOut, p, fallback) else none
    | _ => none
  | _ => none

/-- A share predicate and the fallback, and nothing else. -/
def isUnconstrained (m : Mapping) : Bool := m.unconstrained?.isSome

/-- Holds a rollout for a runtime version and ends in the fallback. -/
def hasRolloutFor (m : Mapping) (runtimeVersion : String) : Bool :=
  m.endsInFallback && m.entries.any (Entry.targets runtimeVersion)

/-- A rollout of either kind. The fallback of a constrained one may stand anywhere. -/
def isRollout (m : Mapping) : Bool :=
  m.isUnconstrained || (m.fallback?.isSome && m.entries.any fun entry => entry.logic.isConstrained)

end Mapping

end StagedRollout
