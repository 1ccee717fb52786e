/-
# StagedRollout.Proofs.Channel.Composition -- records with the branches that they name

A rollout of a channel is composed by looking up one id after the other, in each record the default
branch before the rolled-out one. `Channel.Needs` says what such a series of look-ups comes to: if a
branch is missing, the first missing one is the error, and else the branches that were found are the
first ones with their ids. Two look-ups in a row need the ids of both (`Channel.Needs.bind`), and
from this it follows what is needed for a record, for a list of records and for a rollout
(`Channel.rollout_composes`).

Branches that were looked up by their ids have these ids, so the check that follows each look-up
never fails; it is for branches from elsewhere (`RolloutRecord.join_cases`).
-/
import StagedRollout.Proofs.Rollout.Report

namespace StagedRollout

/-! ## The branches that records name -/

/-- The branches of a record, in the order in which they are looked up. -/
def RolloutRecord.branchIds (r : RolloutRecord) : List String :=
  [r.defaultBranchId, r.rolledOutBranchId]

namespace RolloutInfo

/-- The records of a rollout without their runtime versions. -/
def rolloutRecords : RolloutInfo → List RolloutRecord
  | .unconstrained record => [record]
  | .constrained records => records.map ConstrainedRecord.toRolloutRecord

/-- The branches of the records, record by record. -/
def branchIds (info : RolloutInfo) : List String :=
  info.rolloutRecords.flatMap RolloutRecord.branchIds

end RolloutInfo

namespace Channel

/-- An id of one of the channel's branches. -/
def HasBranch (c : Channel) (branchId : String) : Prop := ∃ b ∈ c.branches, b.id = branchId

instance (c : Channel) (branchId : String) : Decidable (c.HasBranch branchId) :=
  inferInstanceAs (Decidable (∃ b ∈ c.branches, b.id = branchId))

/-- The first of some ids that no branch of the channel has. -/
def firstMissing? (c : Channel) (branchIds : List String) : Option String :=
  branchIds.find? fun branchId => ¬ c.HasBranch branchId

/-- The first branch of the channel that has an id. -/
def FirstBranch (c : Channel) (branchId : String) (b : Branch) : Prop :=
  ∃ front behind, c.branches = front ++ b :: behind ∧ b.id = branchId ∧
    ∀ other ∈ front, other.id ≠ branchId

theorem firstMissing?_eq_none {c : Channel} {branchIds : List String} :
    c.firstMissing? branchIds = none ↔ ∀ branchId ∈ branchIds, c.HasBranch branchId := by
  simp [firstMissing?]

theorem firstMissing?_append (c : Channel) (before behind : List String) :
    c.firstMissing? (before ++ behind) = (c.firstMissing? before).or (c.firstMissing? behind) :=
  List.find?_append

/-! ## Series of look-ups -/

/-- An attempt that needs the branches of some ids. It fails for the first one that is missing, and
comes to something right if none is. -/
def Needs {α : Type} (c : Channel) (branchIds : List String) (right : α → Prop)
    (attempt : Except RolloutError α) : Prop :=
  match c.firstMissing? branchIds with
  | none => ∃ a, attempt = .ok a ∧ right a
  | some branchId => attempt = .error (.branchNotFound c.name branchId)

namespace Needs

variable {α β : Type} {c : Channel} {branchIds others : List String} {right : α → Prop}
  {right' : β → Prop} {attempt : Except RolloutError α}

/-- What is at hand needs no branch. -/
theorem ok {a : α} (h : right a) : c.Needs [] right (.ok a) := ⟨a, rfl, h⟩

/-- **Look-ups in a row need the ids of all of them**, those of the first one first. -/
theorem bind (h : c.Needs branchIds right attempt) {next : α → Except RolloutError β}
    (hnext : ∀ a, right a → c.Needs others right' (next a)) :
    c.Needs (branchIds ++ others) right' (attempt >>= next) := by
  unfold Needs at h ⊢
  rw [firstMissing?_append]
  cases hmissing : c.firstMissing? branchIds with
  | none =>
    rw [hmissing] at h
    obtain ⟨a, rfl, ha⟩ := h
    exact hnext a ha
  | some branchId =>
    rw [hmissing] at h
    obtain rfl : attempt = .error (.branchNotFound c.name branchId) := h
    rfl

/-- The attempt succeeds just where no branch is missing. -/
theorem exists_ok_iff (h : c.Needs branchIds right attempt) :
    (∃ a, attempt = .ok a) ↔ ∀ branchId ∈ branchIds, c.HasBranch branchId := by
  rw [← firstMissing?_eq_none]
  unfold Needs at h
  split at h
  · next hnone =>
    obtain ⟨a, hattempt, -⟩ := h
    exact ⟨fun _ => hnone, fun _ => ⟨a, hattempt⟩⟩
  · next hsome => simp [h, hsome]

theorem right_of_ok (h : c.Needs branchIds right attempt) {a : α} (hattempt : attempt = .ok a) :
    right a := by
  unfold Needs at h
  split at h
  · obtain ⟨a', hattempt', ha⟩ := h
    obtain rfl := Except.ok.inj (hattempt.symm.trans hattempt')
    exact ha
  · exact absurd (hattempt.symm.trans h) (by simp)

/-- The one thing that can go wrong is that a branch is missing. -/
theorem error_iff (h : c.Needs branchIds right attempt) (cause : RolloutError) :
    attempt = .error cause ↔ ∃ branchId, c.firstMissing? branchIds = some branchId ∧
      cause = .branchNotFound c.name branchId := by
  unfold Needs at h
  split at h
  · next hnone =>
    obtain ⟨a, hattempt, -⟩ := h
    simp [hattempt, hnone]
  · next branchId hsome => simp [h, hsome, eq_comm]

end Needs

/-! ## Branches of records -/

/-- A look-up finds the first branch of its id. -/
theorem needs_branch (c : Channel) (branchId : String) :
    c.Needs [branchId] (c.FirstBranch branchId) (c.branch branchId) := by
  unfold Needs branch
  cases hfind : c.branches.find? (·.id = branchId) with
  | some b =>
    obtain ⟨hid, front, behind, hbranches, hfront⟩ := List.find?_eq_some_iff_append.1 hfind
    have hid : b.id = branchId := of_decide_eq_true hid
    have hfirst : c.FirstBranch branchId b := by
      refine ⟨front, behind, hbranches, hid, ?_⟩
      intro other hother
      simpa using hfront other hother
    have hnone : c.firstMissing? [branchId] = none := by
      rw [firstMissing?_eq_none]
      intro known hknown
      rw [List.mem_singleton.1 hknown]
      exact ⟨b, List.mem_of_find?_eq_some hfind, hid⟩
    rw [hnone]
    exact ⟨b, rfl, hfirst⟩
  | none =>
    have hmissing : ¬ c.HasBranch branchId := by
      rintro ⟨b, hmem, hid⟩
      exact absurd (decide_eq_true hid) (List.find?_eq_none.1 hfind b hmem)
    have hsome : c.firstMissing? [branchId] = some branchId := by
      simp [firstMissing?, hmissing]
    rw [hsome]

end Channel

/-- The branches of a record are the first ones of a channel that have their ids. -/
structure RolloutBranches.FirstOf (c : Channel) (r : RolloutRecord) (b : RolloutBranches) :
    Prop where
  default : c.FirstBranch r.defaultBranchId b.default
  rolledOut : c.FirstBranch r.rolledOutBranchId b.rolledOut

theorem Branch.checkRole_of_eq {b : Branch} {expected : String} (h : b.id = expected)
    (role : BranchRole) : b.checkRole role expected = .ok () :=
  if_pos h

theorem Branch.checkRole_of_ne {b : Branch} {expected : String} (h : b.id ≠ expected)
    (role : BranchRole) :
    b.checkRole role expected = .error (.branchIdMismatch role expected b.id) :=
  if_neg h

namespace RolloutRecord

variable {r : RolloutRecord} {default rolledOut : Branch}

/-- Branches that have the ids of a record are joined with it. -/
theorem join_of_eq (hdefault : default.id = r.defaultBranchId)
    (hrolledOut : rolledOut.id = r.rolledOutBranchId) :
    r.join default rolledOut = .ok ⟨rolledOut, default⟩ := by
  rw [join, Branch.checkRole_of_eq hdefault, Branch.checkRole_of_eq hrolledOut]
  rfl

/-- **What joining comes to.** Other branches are refused, for the default branch if it is another
one, and else for the rolled-out one. -/
theorem join_cases (r : RolloutRecord) (default rolledOut : Branch) :
    (default.id = r.defaultBranchId ∧ rolledOut.id = r.rolledOutBranchId ∧
      r.join default rolledOut = .ok ⟨rolledOut, default⟩) ∨
    (default.id ≠ r.defaultBranchId ∧ r.join default rolledOut =
      .error (.branchIdMismatch .default r.defaultBranchId default.id)) ∨
    (default.id = r.defaultBranchId ∧ rolledOut.id ≠ r.rolledOutBranchId ∧
      r.join default rolledOut =
        .error (.branchIdMismatch .rolledOut r.rolledOutBranchId rolledOut.id)) := by
  by_cases hdefault : default.id = r.defaultBranchId
  · by_cases hrolledOut : rolledOut.id = r.rolledOutBranchId
    · exact .inl ⟨hdefault, hrolledOut, join_of_eq hdefault hrolledOut⟩
    · refine .inr (.inr ⟨hdefault, hrolledOut, ?_⟩)
      rw [join, Branch.checkRole_of_eq hdefault, Branch.checkRole_of_ne hrolledOut]
      rfl
  · refine .inr (.inl ⟨hdefault, ?_⟩)
    rw [join, Branch.checkRole_of_ne hdefault]
    rfl

theorem join_eq_ok {branches : RolloutBranches} :
    r.join default rolledOut = .ok branches ↔
      default.id = r.defaultBranchId ∧ rolledOut.id = r.rolledOutBranchId ∧
        branches = ⟨rolledOut, default⟩ := by
  obtain ⟨hdefault, hrolledOut, hjoin⟩ | ⟨hdefault, hjoin⟩ | ⟨hdefault, hrolledOut, hjoin⟩ :=
    join_cases r default rolledOut
  · simp [hjoin, hdefault, hrolledOut, eq_comm]
  · simp [hjoin, hdefault]
  · simp [hjoin, hrolledOut]

theorem join_eq_error {cause : RolloutError} :
    r.join default rolledOut = .error cause ↔
      (default.id ≠ r.defaultBranchId ∧
        cause = .branchIdMismatch .default r.defaultBranchId default.id) ∨
      (default.id = r.defaultBranchId ∧ rolledOut.id ≠ r.rolledOutBranchId ∧
        cause = .branchIdMismatch .rolledOut r.rolledOutBranchId rolledOut.id) := by
  obtain ⟨hdefault, hrolledOut, hjoin⟩ | ⟨hdefault, hjoin⟩ | ⟨hdefault, hrolledOut, hjoin⟩ :=
    join_cases r default rolledOut
  · simp [hjoin, hdefault, hrolledOut]
  · simp [hjoin, hdefault, eq_comm]
  · simp [hjoin, hdefault, hrolledOut, eq_comm]

end RolloutRecord

namespace Channel

theorem FirstBranch.id_eq {c : Channel} {branchId : String} {b : Branch}
    (h : c.FirstBranch branchId b) : b.id = branchId := by
  obtain ⟨_, _, -, hid, -⟩ := h
  exact hid

/-- A record needs its two branches, and nothing else can go wrong with it. -/
theorem needs_branchesOf (c : Channel) (r : RolloutRecord) :
    c.Needs r.branchIds (RolloutBranches.FirstOf c r) (c.branchesOf r) := by
  show c.Needs ([r.defaultBranchId] ++ ([r.rolledOutBranchId] ++ [])) _ _
  refine (c.needs_branch r.defaultBranchId).bind fun default hdefault => ?_
  refine (c.needs_branch r.rolledOutBranchId).bind fun rolledOut hrolledOut => ?_
  rw [RolloutRecord.join_of_eq hdefault.id_eq hrolledOut.id_eq]
  exact .ok ⟨hdefault, hrolledOut⟩

/-- Records need the branches of each of them in turn. -/
theorem needs_joinAll (c : Channel) (records : List ConstrainedRecord) :
    c.Needs (records.flatMap fun record => record.toRolloutRecord.branchIds)
      (fun joined => joined.map Prod.fst = records ∧
        ∀ pair ∈ joined, pair.2.FirstOf c pair.1.toRolloutRecord) (c.joinAll records) := by
  induction records with
  | nil => exact .ok ⟨rfl, by simp⟩
  | cons record rest ih =>
    rw [List.flatMap_cons, ← List.append_nil (List.flatMap _ rest)]
    refine (c.needs_branchesOf record.toRolloutRecord).bind fun branches hbranches => ?_
    refine ih.bind fun joined hjoined => ?_
    obtain ⟨hrecords, hall⟩ := hjoined
    refine .ok ⟨?_, List.forall_mem_cons.2 ⟨hbranches, hall⟩⟩
    rw [List.map_cons, hrecords]

end Channel

/-! ## Rollouts of channels -/

/-- A rollout holds the records of an info, each with the branches that it names. -/
inductive ChannelRollout.Composes (c : Channel) : RolloutInfo → ChannelRollout → Prop
  | unconstrained {record : RolloutRecord} {branches : RolloutBranches}
    (hbranches : branches.FirstOf c record) :
    Composes c (.unconstrained record) (.unconstrained record branches)
  | constrained {joined : List (ConstrainedRecord × RolloutBranches)}
    (hbranches : ∀ pair ∈ joined, pair.2.FirstOf c pair.1.toRolloutRecord) :
    Composes c (.constrained (joined.map Prod.fst)) (.constrained joined)

namespace Channel

/-- A rollout needs the branches of all of its records. -/
theorem needs_rollout {c : Channel} {info : RolloutInfo} (h : c.rolloutInfo = .ok info) :
    c.Needs info.branchIds (ChannelRollout.Composes c info) c.rollout := by
  rw [rollout, h, Outcome.ok_bind]
  cases info with
  | unconstrained record =>
    show c.Needs (record.branchIds ++ []) _ (c.branchesOf record >>= _)
    refine (c.needs_branchesOf record).bind fun branches hbranches => ?_
    exact .ok (.unconstrained hbranches)
  | constrained records =>
    have hids : (RolloutInfo.constrained records).branchIds =
        (records.flatMap fun record => record.toRolloutRecord.branchIds) ++ [] := by
      rw [List.append_nil]
      exact List.flatMap_map _ _ records
    rw [hids]
    show c.Needs _ _ (c.joinAll records >>= _)
    refine (c.needs_joinAll records).bind fun joined hjoined => ?_
    obtain ⟨rfl, hbranches⟩ := hjoined
    exact .ok (.constrained hbranches)

/-- A channel carries a rollout just where the records of one can be read. -/
theorem isRollout_iff_rolloutInfo (c : Channel) :
    c.isRollout = true ↔ ∃ info, c.rolloutInfo = .ok info := by
  rw [isRollout, rolloutInfo]
  cases c.mapping with
  | error _ => simp
  | ok m => exact m.readsAsRecognised.succeeds_iff.symm

/-- Why no records can be read: the mapping cannot, it is of another version, or it is no
rollout. -/
theorem rolloutInfo_eq_error {c : Channel} {cause : RolloutError}
    (h : c.rolloutInfo = .error cause) :
    (∃ why, cause = .unreadable why c.mappingText) ∨
      (∃ actual, cause = .versionMismatch currentVersion actual) ∨ ∃ m, cause = .notARollout m := by
  unfold rolloutInfo mapping at h
  cases hparse : Mapping.parse c.mappingText with
  | error cause' =>
    rw [hparse] at h
    obtain rfl : cause' = cause := Except.error.inj h
    unfold Mapping.parse at hparse
    split at hparse
    · exact absurd hparse (by simp)
    · exact .inl ⟨_, (Except.error.inj hparse).symm⟩
  | ok m =>
    rw [hparse, Outcome.ok_bind, Mapping.checkVersion] at h
    split at h
    · exact .inr (.inr ⟨m, m.readsAsRecognised.error cause h⟩)
    · exact .inr (.inl ⟨m.version, (Except.error.inj h).symm⟩)

/-- All that can go wrong with a rollout: a branch is missing, or no records can be read. -/
theorem rollout_eq_error {c : Channel} {cause : RolloutError} (h : c.rollout = .error cause) :
    (∃ info branchId, c.rolloutInfo = .ok info ∧
      c.firstMissing? info.branchIds = some branchId ∧ cause = .branchNotFound c.name branchId) ∨
      (∃ why, cause = .unreadable why c.mappingText) ∨
      (∃ actual, cause = .versionMismatch currentVersion actual) ∨ ∃ m, cause = .notARollout m := by
  cases hinfo : c.rolloutInfo with
  | ok info =>
    obtain ⟨branchId, hmissing, hcause⟩ := ((needs_rollout hinfo).error_iff cause).1 h
    exact .inl ⟨info, branchId, rfl, hmissing, hcause⟩
  | error cause' =>
    rw [rollout, hinfo, Outcome.error_bind] at h
    obtain rfl := Except.error.inj h
    exact .inr (rolloutInfo_eq_error hinfo)

/-- No branch that was looked up is refused for its id. -/
theorem rollout_ne_branchIdMismatch (c : Channel) (role : BranchRole) (expected actual : String) :
    c.rollout ≠ .error (.branchIdMismatch role expected actual) := by
  intro h
  obtain ⟨_, _, -, -, hcause⟩ | ⟨_, hcause⟩ | ⟨_, hcause⟩ | ⟨_, hcause⟩ := rollout_eq_error h <;>
    exact absurd hcause (by simp)

/-- **A rollout is composed just where all that it needs is there**: a mapping that is a rollout,
and every branch that its records name. It then holds these records, each with the first branches
that have its ids. If a branch is missing, the first one that is looked up in vain is the error, and
if the records cannot be read, then what kept them from being read. The check of the ids never fails
for a channel; for branches from elsewhere it does just where an id is another one, and the default
branch is judged first. -/
theorem rollout_composes (c : Channel) :
    (c.isRollout = true ↔ ∃ info, c.rolloutInfo = .ok info) ∧
    ((∃ rollout, c.rollout = .ok rollout) ↔ c.isRollout = true ∧
      ∀ info, c.rolloutInfo = .ok info → ∀ branchId ∈ info.branchIds, c.HasBranch branchId) ∧
    (∀ rollout, c.rollout = .ok rollout →
      ∃ info, c.rolloutInfo = .ok info ∧ ChannelRollout.Composes c info rollout) ∧
    (∀ info, c.rolloutInfo = .ok info → ∀ cause, c.rollout = .error cause ↔
      ∃ branchId, c.firstMissing? info.branchIds = some branchId ∧
        cause = .branchNotFound c.name branchId) ∧
    (∀ cause, c.rolloutInfo = .error cause → c.rollout = .error cause) ∧
    (∀ role expected actual, c.rollout ≠ .error (.branchIdMismatch role expected actual)) ∧
    ∀ (r : RolloutRecord) (default rolledOut : Branch),
      (∀ branches, r.join default rolledOut = .ok branches ↔
        default.id = r.defaultBranchId ∧ rolledOut.id = r.rolledOutBranchId ∧
          branches = ⟨rolledOut, default⟩) ∧
      ∀ cause, r.join default rolledOut = .error cause ↔
        (default.id ≠ r.defaultBranchId ∧
          cause = .branchIdMismatch .default r.defaultBranchId default.id) ∨
        (default.id = r.defaultBranchId ∧ rolledOut.id ≠ r.rolledOutBranchId ∧
          cause = .branchIdMismatch .rolledOut r.rolledOutBranchId rolledOut.id) := by
  have hunread : ∀ cause, c.rolloutInfo = .error cause → c.rollout = .error cause := by
    intro cause hinfo
    rw [rollout, hinfo]
    rfl
  refine ⟨c.isRollout_iff_rolloutInfo, ?_, ?_, ?_, hunread, c.rollout_ne_branchIdMismatch, ?_⟩
  · rw [isRollout_iff_rolloutInfo]
    cases hinfo : c.rolloutInfo with
    | ok info => simp [(needs_rollout hinfo).exists_ok_iff]
    | error cause => simp [hunread cause hinfo]
  · intro composed hcomposed
    obtain ⟨info, hinfo, -⟩ := Outcome.bind_eq_ok.1 hcomposed
    exact ⟨info, hinfo, (needs_rollout hinfo).right_of_ok hcomposed⟩
  · intro info hinfo
    exact (needs_rollout hinfo).error_iff
  · intro r default rolledOut
    exact ⟨fun _ => RolloutRecord.join_eq_ok, fun _ => RolloutRecord.join_eq_error⟩

end Channel

end StagedRollout
