/-
# StagedRollout.Proofs.Rollout.Admission -- which edits a mapping admits

Each edit looks at the mapping before it changes anything. `Mapping.admits` is what it looks for,
and `Mapping.refusal` what it says when it does not find it; no edit that was admitted fails later
on (`Mapping.gated_edit`). There are three questions behind it, of different strictness: a fallback
at the end, a rollout for the version and a fallback at the end, and the two entries of an
unconstrained rollout. The second one is what the report on a mapping comes to, less the
unconstrained rollouts and the mappings whose fallback does not stand at the end
(`Mapping.hasRolloutFor_iff_targets`).
-/
import StagedRollout.Proofs.Rollout.Targets

namespace StagedRollout

/- The stored fraction is a quotient of large numbers, which nothing here looks into. -/
attribute [local irreducible] Percent.fraction Percent.ofFraction

/-! ## Gates -/

/-- An attempt that succeeds where its gate is open, and is refused where it is not. -/
def Gated {ε α : Type} (gate : Bool) (refusal : ε) (attempt : Except ε α) : Prop :=
  if gate then ∃ a, attempt = .ok a else attempt = .error refusal

namespace Gated

variable {ε α : Type} {gate : Bool} {refusal : ε} {attempt : Except ε α}

theorem of_open (hgate : gate = true) {a : α} (h : attempt = .ok a) :
    Gated gate refusal attempt := by
  rw [Gated, if_pos hgate]
  exact ⟨a, h⟩

theorem of_shut (hgate : gate = false) (h : attempt = .error refusal) :
    Gated gate refusal attempt := by
  rw [Gated, hgate]
  exact h

theorem exists_ok_iff (h : Gated gate refusal attempt) : (∃ a, attempt = .ok a) ↔ gate = true := by
  cases gate with
  | false =>
    obtain rfl : attempt = .error refusal := h
    simp
  | true => exact ⟨fun _ => rfl, fun _ => h⟩

theorem error_iff (h : Gated gate refusal attempt) (cause : ε) :
    attempt = .error cause ↔ gate = false ∧ cause = refusal := by
  cases gate with
  | false =>
    obtain rfl : attempt = .error refusal := h
    simp [eq_comm]
  | true =>
    obtain ⟨a, rfl⟩ : ∃ a, attempt = .ok a := h
    simp

end Gated

namespace Mapping

/-! ## The gate of each edit -/

/-- What a mapping has to be for an edit. -/
def admits (m : Mapping) : Edit → Bool
  | .insert _ _ _ => m.endsInFallback
  | .setPercentFor runtimeVersion _ => m.hasRolloutFor runtimeVersion
  | .setPercent _ => m.isUnconstrained
  | .remove runtimeVersion => m.hasRolloutFor runtimeVersion
  | .finish _ => m.isUnconstrained

/-- What is said when a mapping does not admit an edit. -/
def refusal (m : Mapping) : Edit → RolloutError
  | .insert _ _ runtimeVersion => .postconditionFailed runtimeVersion
  | .setPercentFor runtimeVersion _ => .noMatchingRollout runtimeVersion
  | .setPercent _ => .notARollout m
  | .remove runtimeVersion => .noMatchingRollout runtimeVersion
  | .finish _ => .unexpectedShape .unconstrainedRollout m.toJson

/-- Without a fallback at the end an inserted rollout is not found. -/
theorem insertRollout_of_not_endsInFallback {m : Mapping} (hm : m.endsInFallback = false)
    (branchId : String) (percent : Percent) (version : String) :
    m.insertRollout branchId percent version = .error (.postconditionFailed version) := by
  apply if_neg
  intro hfound
  -- the entry in front is no fallback, so the last one would have been there before
  rcases endsInFallback_cons.1 (endsInFallback_of_hasRolloutFor hfound) with ⟨-, hcatch⟩ | hends
  · exact absurd hcatch Bool.false_ne_true
  · exact absurd (hm.symm.trans hends) Bool.false_ne_true

/-- An unconstrained rollout can be finished, with either outcome. -/
theorem endRollout_of_unconstrained? {m : Mapping} {first fallback : Entry} {share : Predicate}
    (h : m.unconstrained? = some (first, share, fallback)) (outcome : Outcome) :
    m.endRollout outcome = .ok (.standard (match outcome with
      | .revert => fallback.branchId
      | .promote => first.branchId)) := by
  rw [endRollout, h]
  cases outcome <;> rfl

/-- **Every edit has one gate.** An edit that a mapping admits succeeds, and one that it does not is
refused in the one way that belongs to it. -/
theorem gated_edit (m : Mapping) (e : Edit) : Gated (m.admits e) (m.refusal e) (m.edit e) := by
  cases e with
  | insert branchId percent version =>
    cases hm : m.endsInFallback with
    | true => exact .of_open hm (insertRollout_eq hm branchId percent version)
    | false => exact .of_shut hm (insertRollout_of_not_endsInFallback hm branchId percent version)
  | setPercentFor version percent =>
    cases hm : m.hasRolloutFor version with
    | true =>
      have hany := hm
      rw [hasRolloutFor, Bool.and_eq_true] at hany
      obtain ⟨entries, hset, -⟩ := withPercentFor?_of_any hany.2 percent
      exact .of_open hm (setPercentFor_eq_ok.2 ⟨hm, entries, hset, rfl⟩)
    | false =>
      apply Gated.of_shut hm
      exact if_neg (Bool.eq_false_iff.1 hm)
  | setPercent percent =>
    cases hu : m.unconstrained? with
    | some found =>
      exact .of_open (isUnconstrained_iff.2 ⟨found, hu⟩) (setPercent_of_unconstrained? hu percent)
    | none =>
      have hm := isUnconstrained_eq_false_iff.2 hu
      apply Gated.of_shut hm
      exact if_neg (Bool.eq_false_iff.1 hm)
  | remove version =>
    cases hm : m.hasRolloutFor version with
    | true => exact .of_open hm (removeRollout_eq_ok.2 ⟨hm, rfl⟩)
    | false =>
      apply Gated.of_shut hm
      exact if_neg (Bool.eq_false_iff.1 hm)
  | finish outcome =>
    cases hu : m.unconstrained? with
    | some found =>
      exact .of_open (isUnconstrained_iff.2 ⟨found, hu⟩) (endRollout_of_unconstrained? hu outcome)
    | none =>
      apply Gated.of_shut (isUnconstrained_eq_false_iff.2 hu)
      show m.endRollout outcome = .error (.unexpectedShape .unconstrainedRollout m.toJson)
      rw [endRollout, hu]

/-! ## The gates and the report -/

/-- A rollout for a version is one of its lines, so the mapping is no unconstrained rollout. -/
theorem isUnconstrained_of_hasRolloutFor {m : Mapping} {version : String}
    (h : m.hasRolloutFor version = true) : m.isUnconstrained = false := by
  have hends := endsInFallback_of_hasRolloutFor h
  obtain ⟨line, hline, -⟩ := (hasRolloutFor_iff hends version).1 h
  exact isUnconstrained_of_ledger (List.ne_nil_of_mem hline)

/-- **A rollout that can be altered is one that is reported** for the version, in a mapping that is
no unconstrained rollout and ends in a fallback. -/
theorem hasRolloutFor_iff_targets {m : Mapping} {version : String} :
    m.hasRolloutFor version = true ↔
      m.isUnconstrained = false ∧ m.targets version = true ∧ m.endsInFallback = true := by
  constructor
  · intro h
    have hends := endsInFallback_of_hasRolloutFor h
    have hplain := isUnconstrained_of_hasRolloutFor h
    refine ⟨hplain, ?_, hends⟩
    rw [targets_iff_any hends hplain, any_targets_iff]
    exact (hasRolloutFor_iff hends version).1 h
  · rintro ⟨hplain, htargets, hends⟩
    rw [targets_iff_any hends hplain] at htargets
    rw [hasRolloutFor, hends, htargets]
    rfl

/-- What can be altered is a rollout. -/
theorem isRollout_of_hasRolloutFor {m : Mapping} {version : String}
    (h : m.hasRolloutFor version = true) : m.isRollout = true := by
  have hends := endsInFallback_of_hasRolloutFor h
  obtain ⟨line, hline, -⟩ := (hasRolloutFor_iff hends version).1 h
  exact isRollout_iff.2 (.inr ⟨exists_fallback? hends, List.ne_nil_of_mem hline⟩)

/-! ## Empty, standard and rollout -/

/-- A standard mapping has one entry, and that is a fallback. -/
theorem isStandard_iff {m : Mapping} :
    m.isStandard = true ↔ ∃ entry, m.entries = [entry] ∧ entry.isFallback = true := by
  unfold isStandard standardBranch?
  split
  · next entry hentries => cases hcatch : entry.isFallback <;> simp [hentries, hcatch]
  · next hentries =>
    constructor
    · intro h
      exact absurd h (by simp)
    · rintro ⟨entry, hone, -⟩
      exact absurd hone (hentries entry)

/-- A rollout has two entries at least: a fallback, and an entry that is none. -/
theorem two_le_length_of_isRollout {m : Mapping} (h : m.isRollout = true) :
    2 ≤ m.entries.length := by
  rcases isRollout_iff.1 h with hu | ⟨⟨fallback, hfallback⟩, hledger⟩
  · obtain ⟨⟨first, share, fallback⟩, hu⟩ := isUnconstrained_iff.1 hu
    rw [(unconstrained?_eq_some.1 hu).1]
    exact Nat.le_refl 2
  · obtain ⟨line, hline⟩ := List.exists_mem_of_ne_nil _ hledger
    obtain ⟨entry, hentry, hline⟩ := List.mem_filterMap.1 hline
    have htargets : entry.targets line.runtimeVersion = true := by
      rw [Entry.targets_eq_any, hline]
      simp
    have hcatch : fallback.isFallback = true := List.find?_some hfallback
    have hne : entry ≠ fallback := by
      rintro rfl
      exact absurd ((Entry.isFallback_of_targets htargets).symm.trans hcatch) Bool.false_ne_true
    have hmem := List.mem_of_find?_eq_some hfallback
    -- a list with one item at most has no two different ones
    match hentries : m.entries with
    | [] => rw [hentries] at hentry; exact absurd hentry (by simp)
    | [only] =>
      rw [hentries, List.mem_singleton] at hentry hmem
      exact absurd (hentry.trans hmem.symm) hne
    | _ :: _ :: _ => simp

/-- No mapping is two of empty, standard and a rollout: they have no entries, one entry, and two or
more. -/
theorem pairwise_kinds (m : Mapping) :
    [m.entries = [], m.isStandard = true, m.isRollout = true].Pairwise
      fun kind other => ¬(kind ∧ other) := by
  have hempty : m.entries = [] → m.entries.length = 0 := List.length_eq_zero_iff.2
  have hstandard : m.isStandard = true → m.entries.length = 1 := by
    intro h
    obtain ⟨entry, hentries, -⟩ := isStandard_iff.1 h
    rw [hentries]
    rfl
  have hrollout : m.isRollout = true → 2 ≤ m.entries.length := two_le_length_of_isRollout
  simp only [List.pairwise_cons, List.forall_mem_cons, List.not_mem_nil, false_implies,
    implies_true, and_true, List.Pairwise.nil]
  refine ⟨⟨?_, ?_⟩, ?_⟩
  · rintro ⟨he, hs⟩
    have hnone := hempty he
    have hone := hstandard hs
    omega
  · rintro ⟨he, hr⟩
    have hnone := hempty he
    have htwo := hrollout hr
    omega
  · rintro ⟨hs, hr⟩
    have hone := hstandard hs
    have htwo := hrollout hr
    omega

/-- **What a mapping is decides which edits it admits.** A rollout for a version can be altered just
when the mapping is no unconstrained rollout, concerns the version and ends in a fallback, so no
mapping is open to both kinds of alterations and all that can be altered are rollouts. Of every edit
the gate says whether it succeeds, and what is said if it does not. And no mapping is two of empty,
standard and a rollout. -/
theorem edits_follow_classification (m : Mapping) :
    (∀ version, m.hasRolloutFor version = true ↔
      m.isUnconstrained = false ∧ m.targets version = true ∧ m.endsInFallback = true) ∧
    (∀ version, ¬(m.isUnconstrained = true ∧ m.hasRolloutFor version = true)) ∧
    (∀ version, m.isUnconstrained = true ∨ m.hasRolloutFor version = true → m.isRollout = true) ∧
    (∀ e, ((∃ edited, m.edit e = .ok edited) ↔ m.admits e = true) ∧
      ∀ cause, m.edit e = .error cause ↔ m.admits e = false ∧ cause = m.refusal e) ∧
    [m.entries = [], m.isStandard = true, m.isRollout = true].Pairwise
      fun kind other => ¬(kind ∧ other) := by
  refine ⟨fun _ => hasRolloutFor_iff_targets, ?_, ?_, ?_, ?_⟩
  · rintro version ⟨hu, hfound⟩
    exact absurd ((isUnconstrained_of_hasRolloutFor hfound).symm.trans hu) Bool.false_ne_true
  · intro version h
    rcases h with hu | hfound
    · exact isRollout_iff.2 (.inl hu)
    · exact isRollout_of_hasRolloutFor hfound
  · intro e
    exact ⟨(m.gated_edit e).exists_ok_iff, (m.gated_edit e).error_iff⟩
  · exact m.pairwise_kinds

/-- A rollout behind the only fallback is reported, and cannot be altered. -/
example :
    (current [⟨"B1", .alwaysTrue⟩, ⟨"B2", .constrained "1.0.0" .full⟩]).targets "1.0.0" = true ∧
    (current [⟨"B1", .alwaysTrue⟩, ⟨"B2", .constrained "1.0.0" .full⟩]).hasRolloutFor "1.0.0" =
      false := by decide +kernel

end Mapping

end StagedRollout
