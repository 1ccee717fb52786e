/-
# StagedRollout.Channel.Rollout -- rollouts with their branches

The records of a rollout name branches by id; here they are joined with the branches of the
channel. A branch whose id is not the one in the record is never accepted. For a record whose
branches are looked up by these very ids that cannot happen, but a record may also be joined
with branches from elsewhere.

In every record the default branch is looked at first and the rolled-out one second.
-/
import StagedRollout.Channel.Basic
import StagedRollout.Rollout.Info

namespace StagedRollout

/-- The two branches of a rollout record. -/
structure RolloutBranches where
  rolledOut : Branch
  default : Branch
deriving Inhabited

/-- The rollout of a channel, each record with its branches. -/
inductive ChannelRollout
  | unconstrained (record : RolloutRecord) (branches : RolloutBranches)
  | constrained (records : List (ConstrainedRecord × RolloutBranches))
deriving Inhabited

/-! ## Joining -/

/-- Asks for the branch that a record names. -/
def Branch.checkRole (b : Branch) (role : BranchRole) (expected : String) :
    Except RolloutError Unit :=
  if b.id = expected then .ok () else .error (.branchIdMismatch role expected b.id)

/-- The branches of a record, if they are the ones that it names. -/
def RolloutRecord.join (r : RolloutRecord) (default rolledOut : Branch) :
    Except RolloutError RolloutBranches := do
  default.checkRole .default r.defaultBranchId
  rolledOut.checkRole .rolledOut r.rolledOutBranchId
  return { rolledOut, default }

namespace Channel

/-- The branches of a record, looked up in a channel. -/
def branchesOf (c : Channel) (r : RolloutRecord) : Except RolloutError RolloutBranches := do
  let default ← c.branch r.defaultBranchId
  let rolledOut ← c.branch r.rolledOutBranchId
  r.join default rolledOut

/-- Records with their branches, in order. -/
def joinAll (c : Channel) :
    List ConstrainedRecord → Except RolloutError (List (ConstrainedRecord × RolloutBranches))
  | [] => .ok []
  | record :: rest => do
    let branches ← c.branchesOf record.toRolloutRecord
    let joined ← c.joinAll rest
    return (record, branches) :: joined

/-- The records of the rollout that a channel carries. -/
def rolloutInfo (c : Channel) : Except RolloutError RolloutInfo := do
  let m ← c.mapping
  m.rolloutInfo

/-- Whether a channel carries a rollout. One whose mapping cannot be read does not. -/
def isRollout (c : Channel) : Bool :=
  match c.mapping with
  | .ok m => m.isRollout
  | .error _ => false

/-- The rollout that a channel carries, with its branches. -/
def rollout (c : Channel) : Except RolloutError ChannelRollout := do
  match ← c.rolloutInfo with
  | .unconstrained record =>
    let branches ← c.branchesOf record
    return .unconstrained record branches
  | .constrained records =>
    let joined ← c.joinAll records
    return .constrained joined

end Channel

/-! ## JSON forms -/

/-- The members of a pair of branches, in the order in which they are written. -/
def RolloutBranches.members (b : RolloutBranches) : List (String × Json) :=
  [("rolledOutBranch", b.rolledOut.toJson), ("defaultBranch", b.default.toJson)]

/-- The JSON form of a record with its branches: the members of the record, then the branches. -/
def ChannelRollout.toJson : ChannelRollout → Json
  | .unconstrained record branches => .object (record.members ++ branches.members)
  | .constrained records =>
    .array (records.map fun (record, branches) => .object (record.members ++ branches.members))

end StagedRollout
