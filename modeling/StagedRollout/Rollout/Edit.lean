/-
# StagedRollout.Rollout.Edit -- starting, changing and ending rollouts

Every operation takes a mapping and yields a new one or says why it does not apply. Inserting
puts a constrained rollout in front of everything else. Changing a percentage replaces the
operand of one share predicate. A constrained rollout ends by dropping its entry, an
unconstrained one by routing everyone to one of its two branches.

`Edit` names the operations, so that a series of them is a value; `Mapping.run` carries a
series out and passes over the steps that do not apply.
-/
import StagedRollout.Rollout.Info

namespace StagedRollout

/-! ## Nodes of rollouts -/

/-- The predicate that holds for a percentage of the clients. -/
def Predicate.share (percent : Percent) : Predicate :=
  { operand := .number percent.fraction, clientKey := rolloutTokenKey, operator := .hashLess }

/-- The predicate that fixes the client's runtime version. -/
def Predicate.version (runtimeVersion : String) : Predicate :=
  { operand := .text runtimeVersion, clientKey := runtimeVersionKey, operator := .equal }

/-- The logic of an unconstrained rollout. -/
def Node.share (percent : Percent) : Node := .predicate (.share percent)

/-- The logic of a constrained rollout. -/
def Node.constrained (runtimeVersion : String) (percent : Percent) : Node :=
  .all [.predicate (.version runtimeVersion), .share percent]

/-! ## Changing a percentage -/

namespace Node

/-- Nodes with the first share predicate among them set to a percentage. -/
def withPercentAmong? (percent : Percent) : List Node → Option (List Node)
  | [] => none
  | node :: rest =>
    match node with
    | .predicate p =>
      if p.isShare then some (.predicate { p with operand := .number percent.fraction } :: rest)
      else (node :: ·) <$> withPercentAmong? percent rest
    | _ => (node :: ·) <$> withPercentAmong? percent rest

/-- A node with its share set to a percentage: the node itself if it is a share predicate, or
the first share predicate directly inside an `and`. -/
def withPercent? (percent : Percent) : Node → Option Node
  | .predicate p =>
    if p.isShare then some (.predicate { p with operand := .number percent.fraction }) else none
  | .all nodes => .all <$> withPercentAmong? percent nodes
  | _ => none

end Node

/-- An entry with its share set to a percentage. -/
def Entry.withPercent? (percent : Percent) (entry : Entry) : Option Entry :=
  (fun logic => { entry with logic }) <$> entry.logic.withPercent? percent

/-- Entries with the first one for a runtime version set to a percentage. -/
def withPercentFor? (runtimeVersion : String) (percent : Percent) : List Entry → Option (List Entry)
  | [] => none
  | entry :: rest =>
    if entry.targets runtimeVersion then (· :: rest) <$> entry.withPercent? percent
    else (entry :: ·) <$> withPercentFor? runtimeVersion percent rest

/-! ## The operations -/

/-- What becomes of the clients when an unconstrained rollout ends. -/
inductive Outcome
  /-- All go back to the default branch. -/
  | revert
  /-- All go to the rolled-out branch. -/
  | promote
deriving DecidableEq, Inhabited

namespace Mapping

/-- Puts a rollout for a runtime version in front. It has to be found there afterwards, which
fails when the mapping does not end in a fallback. -/
def insertRollout (m : Mapping) (branchId : String) (percent : Percent) (runtimeVersion : String) :
    Except RolloutError Mapping :=
  let entry : Entry := ⟨branchId, .constrained runtimeVersion percent⟩
  let inserted : Mapping := { m with entries := entry :: m.entries }
  if inserted.hasRolloutFor runtimeVersion then .ok inserted
  else .error (.postconditionFailed runtimeVersion)

/-- Changes the percentage of the first rollout for a runtime version. -/
def setPercentFor (m : Mapping) (runtimeVersion : String) (percent : Percent) :
    Except RolloutError Mapping :=
  if m.hasRolloutFor runtimeVersion then
    match withPercentFor? runtimeVersion percent m.entries with
    | some entries => .ok { m with entries }
    | none => .error (.noMatchingRollout runtimeVersion)
  else .error (.noMatchingRollout runtimeVersion)

/-- Changes the percentage of an unconstrained rollout. -/
def setPercent (m : Mapping) (percent : Percent) : Except RolloutError Mapping :=
  if m.isUnconstrained then
    match m.entries with
    | first :: rest =>
      match first.withPercent? percent with
      | some first => .ok { m with entries := first :: rest }
      | none => .error (.notARollout m)
    | [] => .error (.notARollout m)
  else .error (.notARollout m)

/-- Drops the first rollout for a runtime version. -/
def removeRollout (m : Mapping) (runtimeVersion : String) : Except RolloutError Mapping :=
  if m.hasRolloutFor runtimeVersion then
    .ok { m with entries := m.entries.eraseP (Entry.targets runtimeVersion) }
  else .error (.noMatchingRollout runtimeVersion)

/-- Ends an unconstrained rollout. What is left is the standard mapping of one branch, at the
current version. -/
def endRollout (m : Mapping) (outcome : Outcome) : Except RolloutError Mapping :=
  match m.unconstrained? with
  | some (rolledOut, _, fallback) =>
    match outcome with
    | .revert => .ok (.standard fallback.branchId)
    | .promote => .ok (.standard rolledOut.branchId)
  | none => .error (.unexpectedShape .unconstrainedRollout m.toJson)

end Mapping

/-! ## Series of edits -/

/-- An operation with its arguments. -/
inductive Edit
  | insert (branchId : String) (percent : Percent) (runtimeVersion : String)
  | setPercentFor (runtimeVersion : String) (percent : Percent)
  | setPercent (percent : Percent)
  | remove (runtimeVersion : String)
  | finish (outcome : Outcome)
deriving DecidableEq

namespace Mapping

/-- Carries out one operation. -/
def edit (m : Mapping) : Edit → Except RolloutError Mapping
  | .insert branchId percent runtimeVersion => m.insertRollout branchId percent runtimeVersion
  | .setPercentFor runtimeVersion percent => m.setPercentFor runtimeVersion percent
  | .setPercent percent => m.setPercent percent
  | .remove runtimeVersion => m.removeRollout runtimeVersion
  | .finish outcome => m.endRollout outcome

/-- Carries out one operation, or leaves the mapping as it is. -/
def step (m : Mapping) (e : Edit) : Mapping :=
  match m.edit e with
  | .ok edited => edited
  | .error _ => m

/-- Carries out a series of operations; one that does not apply changes nothing. -/
def run (m : Mapping) (edits : List Edit) : Mapping := edits.foldl step m

end Mapping

end StagedRollout
