/-
# StagedRollout.Proofs.Rollout.Lifecycle -- the life of an unconstrained rollout

An unconstrained rollout is `Running` as long as its percentage is set, whatever number its share
was written with at first, and each time the percentage that was set is the one that is reported.
When it ends, everyone is on one of its two branches, and the mapping has `Ended`: it is a standard
one, and only an insertion would apply to it. `Mapping.lifecycle_of_unconstrained` puts the two
together: the branch that is left is one of those that were reported while the rollout was running,
the default one after a reversion and the rolled-out one after a promotion.
-/
import StagedRollout.Proofs.Channel.Composition
import StagedRollout.Proofs.Rollout.Admission

namespace StagedRollout

/- The stored fraction is a quotient of large numbers, which nothing here looks into. -/
attribute [local irreducible] Percent.fraction Percent.ofFraction

/-- The branch that everyone is on after a rollout. -/
def RolloutRecord.branchAfter (record : RolloutRecord) : Outcome → String
  | .revert => record.defaultBranchId
  | .promote => record.rolledOutBranchId

namespace Mapping

/-! ## Running -/

/-- An unconstrained rollout at a version, and the record that is reported of it. -/
structure Running (m : Mapping) (version : UInt32) (record : RolloutRecord) : Prop where
  isUnconstrained : m.isUnconstrained = true
  version : m.version = version
  branchIds : m.branchIds = [record.rolledOutBranchId, record.defaultBranchId]
  rolloutInfo : m.rolloutInfo = .ok (.unconstrained record)

/-- Of an unconstrained rollout, the record names the branches of the two entries. -/
theorem running_of_unconstrained? {m : Mapping} {first fallback : Entry} {share : Predicate}
    {percent : Percent} (hu : m.unconstrained? = some (first, share, fallback))
    (hpercent : share.percent = .ok percent) :
    m.Running m.version ⟨first.branchId, percent, fallback.branchId⟩ := by
  obtain ⟨hentries, -⟩ := unconstrained?_eq_some.1 hu
  obtain ⟨read, hread, hinfo⟩ := rolloutInfo_of_unconstrained? hu
  obtain rfl : read = percent := Except.ok.inj (hread.symm.trans hpercent)
  refine ⟨isUnconstrained_iff.2 ⟨_, hu⟩, rfl, ?_, hinfo⟩
  rw [branchIds, hentries]
  rfl

/-- What is reported as an unconstrained rollout is running. -/
theorem running_of_rolloutInfo {m : Mapping} {record : RolloutRecord}
    (h : m.rolloutInfo = .ok (.unconstrained record)) : m.Running m.version record := by
  obtain ⟨first, share, fallback, percent, hu, hpercent, hinfo⟩ | ⟨_, -, -, -, hinfo⟩ | ⟨-, hinfo⟩ :=
    m.rolloutInfo_cases
  · rw [hinfo, Except.ok.injEq, RolloutInfo.unconstrained.injEq] at h
    subst h
    exact running_of_unconstrained? hu hpercent
  · rw [hinfo] at h
    exact absurd h (by simp)
  · rw [hinfo] at h
    exact absurd h (by simp)

namespace Running

variable {m : Mapping} {version : UInt32} {record : RolloutRecord}

/-- The two entries of a running rollout. -/
theorem exists_unconstrained? (h : m.Running version record) :
    ∃ first share fallback, m.unconstrained? = some (first, share, fallback) ∧
      first.branchId = record.rolledOutBranchId ∧ fallback.branchId = record.defaultBranchId := by
  obtain ⟨⟨first, share, fallback⟩, hu⟩ := isUnconstrained_iff.1 h.isUnconstrained
  have hids := h.branchIds
  rw [Mapping.branchIds, (unconstrained?_eq_some.1 hu).1] at hids
  simp only [List.map_cons, List.map_nil, List.cons.injEq, and_true] at hids
  exact ⟨first, share, fallback, hu, hids.1, hids.2⟩

/-- **Setting the percentage keeps a rollout running**, and shows in its record. -/
theorem setPercent (h : m.Running version record) (percent : Percent) :
    ∃ changed, m.setPercent percent = .ok changed ∧
      changed.Running version { record with percent } := by
  obtain ⟨first, share, fallback, hu, hrolledOut, hdefault⟩ := h.exists_unconstrained?
  have hrunning := running_of_unconstrained? (unconstrained?_setShare hu percent)
    (Predicate.percent_setShare share percent)
  refine ⟨_, setPercent_of_unconstrained? hu percent, ?_⟩
  rw [← h.version, ← hrolledOut, ← hdefault]
  exact hrunning

/-- A rollout keeps running through any series of percentages. -/
theorem setPercents (h : m.Running version record) (percents : List Percent) :
    ∃ changed, percents.foldlM Mapping.setPercent m = .ok changed ∧
      changed.Running version { record with percent := percents.getLastD record.percent } := by
  induction percents generalizing m record with
  | nil => exact ⟨m, rfl, h⟩
  | cons percent percents ih =>
    obtain ⟨next, hnext, hrunning⟩ := h.setPercent percent
    obtain ⟨changed, hchanged, hlast⟩ := ih hrunning
    refine ⟨changed, ?_, ?_⟩
    · rw [List.foldlM_cons, hnext]
      exact hchanged
    · -- the record of the whole series is the one that the rest of it leaves
      rw [List.getLastD_cons]
      exact hlast

/-- A running rollout can be ended, and what is left is the standard mapping of the branch that the
record names for the outcome. -/
theorem endRollout (h : m.Running version record) (outcome : Outcome) :
    m.endRollout outcome = .ok (.standard (record.branchAfter outcome)) := by
  obtain ⟨first, share, fallback, hu, hrolledOut, hdefault⟩ := h.exists_unconstrained?
  rw [endRollout_of_unconstrained? hu]
  cases outcome with
  | revert => exact congrArg (fun branchId => Except.ok (standard branchId)) hdefault
  | promote => exact congrArg (fun branchId => Except.ok (standard branchId)) hrolledOut

end Running

/-! ## Ended -/

/-- Everyone is on one branch, and no edit applies but an insertion. -/
structure Ended (m : Mapping) (branchId : String) : Prop where
  isStandard : m.isStandard = true
  standardBranch : m.standardBranch = .ok branchId
  isRollout : m.isRollout = false
  edit : ∀ e : Edit, (∀ branchId percent version, e ≠ .insert branchId percent version) →
    m.edit e = .error (m.refusal e)

/-- Nothing in a standard mapping can be altered. -/
theorem admits_standard (branchId : String) {e : Edit}
    (he : ∀ branchId percent version, e ≠ .insert branchId percent version) :
    (standard branchId).admits e = false := by
  cases e with
  | insert inserted percent version => exact absurd rfl (he inserted percent version)
  | setPercentFor version percent => rfl
  | setPercent percent => rfl
  | remove version => rfl
  | finish outcome => rfl

theorem ended_standard (branchId : String) : (standard branchId).Ended branchId where
  isStandard := rfl
  standardBranch := rfl
  isRollout := rfl
  edit := fun e he =>
    (((standard branchId).gated_edit e).error_iff _).2 ⟨admits_standard branchId he, rfl⟩

/-! ## From the first percentage to the end -/

/-- **The life of an unconstrained rollout.** Whatever mapping is reported as one, any series of
percentages can be set: the mapping keeps its kind, its version and its two branches, and the last
percentage that was set is the one that is reported. Then the rollout can be ended, which leaves
everyone on the default branch of the record or on its rolled-out one, as was asked for, and no
other rollout to alter. A channel that has the two branches has the one that is left. -/
theorem lifecycle_of_unconstrained (m : Mapping) (record : RolloutRecord)
    (h : m.rolloutInfo = .ok (.unconstrained record)) (percents : List Percent) :
    ∃ changed, percents.foldlM setPercent m = .ok changed ∧
      changed.Running m.version { record with percent := percents.getLastD record.percent } ∧
      ∀ outcome, ∃ left, changed.endRollout outcome = .ok left ∧
        left.Ended (record.branchAfter outcome) ∧
        ∀ c : Channel, c.HasBranch record.rolledOutBranchId → c.HasBranch record.defaultBranchId →
          ∀ branchId, left.standardBranch = .ok branchId → c.HasBranch branchId := by
  obtain ⟨changed, hchanged, hrunning⟩ := (running_of_rolloutInfo h).setPercents percents
  refine ⟨changed, hchanged, hrunning, ?_⟩
  intro outcome
  have hended := ended_standard (record.branchAfter outcome)
  refine ⟨_, hrunning.endRollout outcome, hended, ?_⟩
  intro c hrolledOut hdefault branchId hleft
  obtain rfl := Except.ok.inj (hended.standardBranch.symm.trans hleft)
  cases outcome with
  | revert => exact hdefault
  | promote => exact hrolledOut

/-- A share between two percentages, as someone might write it. -/
def shareBetween : Predicate :=
  ⟨.number (Decimal.toBinary64 ⟨false, 145, -3⟩), rolloutTokenKey, .hashLess⟩

/-- An unconstrained rollout to that share, at another version than the current one. -/
def rolloutBetween : Mapping := ⟨7, [⟨"B2", .predicate shareBetween⟩, ⟨"B1", .alwaysTrue⟩]⟩

/-- A channel with the branches of that rollout. -/
def channelBetween : Channel :=
  ⟨"1", "main", "", [⟨"B1", "stable", []⟩, ⟨"B2", "next", []⟩]⟩

/-- A share of 14.5 percent is reported as 14, is raised twice, and is promoted. -/
theorem lifecycle_of_unconstrained_between :
    rolloutBetween.rolloutInfo = .ok (.unconstrained ⟨"B2", ⟨14, by decide⟩, "B1"⟩) ∧
      channelBetween.HasBranch "B2" ∧ channelBetween.HasBranch "B1" ∧
      ∃ changed, [⟨15, by decide⟩, .full].foldlM setPercent rolloutBetween = .ok changed ∧
        changed.Running 7 ⟨"B2", .full, "B1"⟩ ∧
        ∃ left, changed.endRollout .promote = .ok left ∧ left.Ended "B2" ∧
          ∀ branchId, left.standardBranch = .ok branchId → channelBetween.HasBranch branchId := by
  have hshare : shareBetween.isShare = true := by decide +kernel
  have hpercent : shareBetween.percent = .ok ⟨14, by decide⟩ :=
    (Predicate.percent_of_number rfl).trans (Percent.ofFraction_of_nearest (by decide +kernel))
  have hinfo := (running_of_unconstrained? (m := rolloutBetween)
    (unconstrained?_eq_some.2 ⟨rfl, rfl, hshare, rfl⟩) hpercent).rolloutInfo
  have hrolledOut : channelBetween.HasBranch "B2" := by decide
  have hdefault : channelBetween.HasBranch "B1" := by decide
  obtain ⟨changed, hchanged, hrunning, hends⟩ :=
    lifecycle_of_unconstrained rolloutBetween _ hinfo [⟨15, by decide⟩, .full]
  obtain ⟨left, hleft, hended, hbranch⟩ := hends .promote
  exact ⟨hinfo, hrolledOut, hdefault, changed, hchanged, hrunning, left, hleft, hended,
    hbranch channelBetween hrolledOut hdefault⟩

end Mapping

end StagedRollout
