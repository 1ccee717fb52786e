/-
# StagedRollout.Rollout.Info -- what a rollout says

From a mapping that is a rollout its **records** can be read off: which branch is rolled out
to which share of the clients, and which branch the others stay on. An unconstrained rollout
has one record, a constrained one a record for each entry that fixes a runtime version, in
the order of the entries. The branch of the first entry that is always true is the default in
all of them.
-/
import StagedRollout.Rollout.Percent
import StagedRollout.Rollout.Recognition

namespace StagedRollout

/-- A branch that is rolled out to a share of the clients, and the branch of the others. -/
structure RolloutRecord where
  rolledOutBranchId : String
  percent : Percent
  defaultBranchId : String
deriving DecidableEq, Inhabited

/-- A rollout record for the clients of one runtime version. -/
structure ConstrainedRecord extends RolloutRecord where
  runtimeVersion : String
deriving DecidableEq, Inhabited

/-- The records of a rollout. -/
inductive RolloutInfo
  | unconstrained (record : RolloutRecord)
  | constrained (records : List ConstrainedRecord)
deriving DecidableEq, Inhabited

namespace RolloutInfo

/-- The rollout is bound to runtime versions. -/
def isConstrained : RolloutInfo → Bool
  | .unconstrained _ => false
  | .constrained _ => true

/-- The runtime versions that a rollout is bound to. -/
def runtimeVersions : RolloutInfo → List String
  | .unconstrained _ => []
  | .constrained records => records.map ConstrainedRecord.runtimeVersion

/-- The first record that is bound to a runtime version. -/
def recordFor? (info : RolloutInfo) (runtimeVersion : String) : Option ConstrainedRecord :=
  match info with
  | .unconstrained _ => none
  | .constrained records => records.find? (·.runtimeVersion = runtimeVersion)

end RolloutInfo

/-! ## Reading the records off a mapping -/

/-- The percentage of a share predicate. -/
def Predicate.percent (p : Predicate) : Except RolloutError Percent := do
  Percent.ofFraction (← p.operand.asNumber)

/-- The record of an entry, given the default branch; nothing for an entry that is no
constrained rollout. -/
def Entry.record? (defaultBranchId : String) (entry : Entry) :
    Option (Except RolloutError ConstrainedRecord) :=
  entry.logic.constrained?.map fun (runtimeVersion, share) => do
    let percent ← share.percent
    return { rolledOutBranchId := entry.branchId, percent, defaultBranchId, runtimeVersion }

/-- The records of entries in order. -/
def recordsOf (defaultBranchId : String) : List Entry → Except RolloutError (List ConstrainedRecord)
  | [] => .ok []
  | entry :: rest =>
    match entry.record? defaultBranchId with
    | none => recordsOf defaultBranchId rest
    | some record => do
      let record ← record
      let records ← recordsOf defaultBranchId rest
      return record :: records

namespace Mapping

/-- The records of a mapping that is a rollout. -/
def rolloutInfo (m : Mapping) : Except RolloutError RolloutInfo :=
  match m.unconstrained? with
  | some (rolledOut, share, fallback) => do
    let percent ← share.percent
    return .unconstrained
      { rolledOutBranchId := rolledOut.branchId, percent, defaultBranchId := fallback.branchId }
  | none =>
    match m.fallback? with
    | some fallback =>
      if m.isRollout then .constrained <$> recordsOf fallback.branchId m.entries
      else .error (.notARollout m)
    | none => .error (.notARollout m)

/-- Whether a rollout concerns the clients of a runtime version. -/
def targets (m : Mapping) (runtimeVersion : String) : Bool :=
  match m.rolloutInfo with
  | .ok (.unconstrained _) => true
  | .ok info => (info.recordFor? runtimeVersion).isSome
  | .error _ => false

end Mapping

/-! ## JSON forms -/

/-- The members of a record, in the order in which they are written. -/
def RolloutRecord.members (r : RolloutRecord) : List (String × Json) :=
  [("rolledOutBranchId", .text r.rolledOutBranchId), ("percentRolledOut", r.percent.toJson),
    ("defaultBranchId", .text r.defaultBranchId)]

/-- The members of a constrained record, in the order in which they are written. -/
def ConstrainedRecord.members (r : ConstrainedRecord) : List (String × Json) :=
  [("rolledOutBranchId", .text r.rolledOutBranchId), ("percentRolledOut", r.percent.toJson),
    ("runtimeVersion", .text r.runtimeVersion), ("defaultBranchId", .text r.defaultBranchId)]

/-- The JSON form of the records of a rollout. -/
def RolloutInfo.toJson : RolloutInfo → Json
  | .unconstrained record => .object record.members
  | .constrained records => .array (records.map fun record => .object record.members)

end StagedRollout
