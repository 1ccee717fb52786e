/-
# StagedRollout.Proofs.Rollout.Targets -- which clients a mapping concerns after an edit

A mapping concerns the clients of a runtime version if it is an unconstrained rollout, or if it
has a fallback and its ledger a line for the version (`Mapping.targets_iff`). From that follows
what inserting and removing do to the versions that are concerned, and in both places there is
something to watch for. An unconstrained rollout has two entries, so one more in front of it
makes a constrained rollout of one version, and all others are left out
(`targets_insertRollout`). And inserting never asks whether a version has a rollout already,
while removing drops the first one only: the version is done with just when it had one
(`targets_after_remove`).
-/
import StagedRollout.Proofs.Outcome
import StagedRollout.Proofs.Rollout.Edited

namespace StagedRollout

/- The stored fraction is a quotient of large numbers, which nothing here looks into. -/
attribute [local irreducible] Percent.fraction Percent.ofFraction

namespace Mapping

/-! ## The versions that a mapping concerns -/

/-- A line rules out an unconstrained rollout. -/
theorem isUnconstrained_of_ledger {m : Mapping} (h : m.ledger ≠ []) :
    m.isUnconstrained = false := by
  rw [isUnconstrained_eq_false_iff]
  cases hu : m.unconstrained? with
  | none => rfl
  | some found => exact absurd (ledger_of_unconstrained? hu) h

/-- An unconstrained rollout concerns everyone, any other mapping with a fallback the versions in
its ledger. -/
theorem targets_iff {m : Mapping} {version : String} :
    m.targets version = true ↔ m.isUnconstrained = true ∨
      (∃ fallback, m.fallback? = some fallback) ∧
        ∃ line ∈ m.ledger, line.runtimeVersion = version := by
  unfold targets
  obtain ⟨first, share, fallback, percent, hu, -, hinfo⟩ | ⟨fallback, hu, hf, hledger, hinfo⟩ |
    ⟨hrollout, hinfo⟩ := m.rolloutInfo_cases
  · rw [hinfo, isUnconstrained, hu]
    simp
  · rw [hinfo, isUnconstrained_of_ledger hledger]
    simp only [RolloutInfo.recordFor?, List.find?_isSome, List.mem_map, decide_eq_true_eq,
      Bool.false_eq_true, false_or]
    constructor
    · rintro ⟨_, ⟨line, hline, rfl⟩, hversion⟩
      exact ⟨⟨fallback, hf⟩, line, hline, hversion⟩
    · rintro ⟨-, line, hline, hversion⟩
      exact ⟨_, ⟨line, hline, rfl⟩, hversion⟩
  · rw [hinfo]
    -- either kind of target would make the mapping a rollout
    have hnone : ¬(m.isUnconstrained = true ∨
        (∃ fallback, m.fallback? = some fallback) ∧ m.ledger ≠ []) := by
      rw [← isRollout_iff, hrollout]
      exact Bool.false_ne_true
    constructor
    · intro h
      exact absurd h (by simp)
    · intro h
      exfalso
      apply hnone
      obtain hu | ⟨hf, line, hline, -⟩ := h
      · exact .inl hu
      · exact .inr ⟨hf, List.ne_nil_of_mem hline⟩

/-- The same for a mapping that ends in a fallback, by its entries. -/
theorem targets_iff_any {m : Mapping} (hm : m.endsInFallback = true)
    (hu : m.isUnconstrained = false) {version : String} :
    m.targets version = true ↔ m.entries.any (Entry.targets version) = true := by
  rw [targets_iff, hu, any_targets_iff]
  constructor
  · rintro (h | ⟨-, h⟩)
    · exact absurd h (by simp)
    · exact h
  · intro h
    exact .inr ⟨exists_fallback? hm, h⟩

/-! ## Inserting -/

/-- **What inserting adds and hides.** The mapping that is left concerns the version of the new
rollout, and it concerns every other version that the old mapping did, unless that was an
unconstrained rollout: an unconstrained rollout has two entries, and counts no longer behind a
third one. -/
theorem targets_insertRollout {m inserted : Mapping} {branchId version : String}
    {percent : Percent} (h : m.insertRollout branchId percent version = .ok inserted)
    (other : String) :
    inserted.targets other = true ↔
      other = version ∨ m.isUnconstrained = false ∧ m.targets other = true := by
  obtain ⟨hm, rfl⟩ := insertRollout_eq_ok.1 h
  have hledger := ledger_inserted m branchId percent version
  have hends := endsInFallback_of_edit (e := .insert branchId percent version) h
  -- the new line rules out that the result is an unconstrained rollout
  have hconstrained := isUnconstrained_of_ledger (hledger ▸ List.cons_ne_nil _ _)
  rw [targets_iff_any hends hconstrained, any_targets_iff]
  show (∃ line ∈ Mapping.ledger _, _) ↔ _
  rw [hledger]
  simp only [List.mem_cons, or_and_right, exists_or, exists_eq_left]
  refine or_congr eq_comm ?_
  -- what stands behind it is concerned as before, if it was by its ledger
  cases hu : m.isUnconstrained with
  | false =>
    rw [targets_iff_any hm hu, any_targets_iff]
    simp [ledger]
  | true =>
    obtain ⟨found, hfound⟩ := isUnconstrained_iff.1 hu
    rw [ledger_of_unconstrained? hfound]
    simp

/-- A rollout for a tenth of the clients of one version. -/
def versionRollout : Mapping :=
  current [⟨"B2", .constrained "1.0.0" ⟨10, by decide⟩⟩, ⟨"B1", .alwaysTrue⟩]

/-- In front of a rollout for one version there can be one for another. -/
theorem targets_insertRollout_second :
    ∃ inserted, versionRollout.insertRollout "B3" ⟨50, by decide⟩ "2.0.0" = .ok inserted ∧
      ∀ other, inserted.targets other = true ↔ other = "2.0.0" ∨
        versionRollout.isUnconstrained = false ∧ versionRollout.targets other = true := by
  have h := insertRollout_eq (m := versionRollout) (by decide) "B3" ⟨50, by decide⟩ "2.0.0"
  exact ⟨_, h, targets_insertRollout h⟩

/-- An unconstrained rollout of a fifth of the clients. -/
def legacyRollout : Mapping := current [⟨"B2", .share ⟨20, by decide⟩⟩, ⟨"B1", .alwaysTrue⟩]

/-- A rollout for one version in front of an unconstrained one hides it from all others. -/
theorem insertRollout_hides_unconstrained :
    ∃ inserted, legacyRollout.insertRollout "B3" ⟨10, by decide⟩ "1.0.0" = .ok inserted ∧
      ¬(inserted.targets "2.0.0" = true ↔
        "2.0.0" = "1.0.0" ∨ legacyRollout.targets "2.0.0" = true) := by
  refine ⟨_, insertRollout_eq (by decide) _ _ _, ?_⟩
  have hbefore : legacyRollout.targets "2.0.0" = true := by decide +kernel
  have hafter : ({ legacyRollout with entries :=
      ⟨"B3", .constrained "1.0.0" ⟨10, by decide⟩⟩ :: legacyRollout.entries } :
      Mapping).targets "2.0.0" = false := by decide +kernel
  rw [hafter, hbefore]
  simp

end Mapping

/-! ## Removing -/

theorem countP_eraseP {α : Type} (p : α → Bool) (items : List α) :
    (items.eraseP p).countP p = items.countP p - 1 := by
  induction items with
  | nil => rfl
  | cons item rest ih =>
    by_cases h : p item = true
    · simp [h]
    · have hrest : rest.countP p - 1 = (rest.eraseP p).countP p := ih.symm
      simp [h, hrest]

/-- There is a rollout for a version left behind the first one just when there were two. -/
theorem any_eraseP_iff {entries : List Entry} {version : String} :
    (entries.eraseP (Entry.targets version)).any (Entry.targets version) = true ↔
      2 ≤ entries.countP (Entry.targets version) := by
  rw [List.any_eq_true, ← List.countP_pos_iff, countP_eraseP]
  omega

namespace Mapping

/-- A mapping whose entries are rollouts for runtime versions and fallbacks. -/
def VersionsOnly (m : Mapping) : Prop :=
  ∀ entry ∈ m.entries, entry.isFallback = true ∨ entry.logic.isConstrained = true

theorem VersionsOnly.isUnconstrained {m : Mapping} (h : m.VersionsOnly) :
    m.isUnconstrained = false := by
  rw [isUnconstrained_eq_false_iff]
  cases hu : m.unconstrained? with
  | none => rfl
  | some found =>
    obtain ⟨first, share, fallback⟩ := found
    obtain ⟨hentries, hlogic, -, -⟩ := unconstrained?_eq_some.1 hu
    -- its first entry is a predicate, which is neither
    rcases h first (by rw [hentries]; exact List.mem_cons_self) with hfirst | hfirst
    · rw [Entry.isFallback, hlogic] at hfirst
      exact absurd hfirst Bool.false_ne_true
    · rw [hlogic] at hfirst
      exact absurd hfirst Bool.false_ne_true

/-- Edits make nothing else than rollouts for runtime versions and fallbacks. -/
theorem VersionsOnly.edit {m edited : Mapping} (hm : m.VersionsOnly) {e : Edit}
    (h : m.edit e = .ok edited) : edited.VersionsOnly := by
  intro entry hmem
  cases mem_of_edit h hmem with
  | kept hmem => exact hm entry hmem
  | inserted hnew =>
    right
    rw [hnew, Node.isConstrained, Node.constrained?_constrained]
    rfl
  | collapsed hnew =>
    left
    rw [hnew]
    rfl
  | @changed old percent hfrom hset =>
    right
    obtain ⟨logic, hlogic, rfl⟩ := Option.map_eq_some_iff.1 hset
    rcases hm old hfrom with hold | hold
    -- a fallback has no share to set
    · rw [Node.isAlwaysTrue_iff.1 hold] at hlogic
      exact absurd hlogic (by simp [Node.withPercent?])
    · obtain ⟨⟨version, share⟩, hc⟩ := Option.isSome_iff_exists.1 hold
      obtain ⟨changed, hchanged, hc'⟩ := Node.withPercent?_of_constrained hc percent
      obtain rfl := Option.some.inj (hchanged.symm.trans hlogic)
      show changed.isConstrained = true
      rw [Node.isConstrained, hc']
      rfl

/-- **What removing leaves behind.** The version is still concerned if it had two rollouts. -/
theorem targets_after_remove {m left : Mapping} (hm : m.VersionsOnly) {version : String}
    (h : m.removeRollout version = .ok left) :
    1 ≤ m.entries.countP (Entry.targets version) ∧
      (left.targets version = true ↔ 2 ≤ m.entries.countP (Entry.targets version)) := by
  have hleft := hm.edit (e := .remove version) h
  have hends := endsInFallback_of_edit (e := .remove version) h
  obtain ⟨hfound, rfl⟩ := removeRollout_eq_ok.1 h
  rw [hasRolloutFor, Bool.and_eq_true, List.any_eq_true, ← List.countP_pos_iff] at hfound
  exact ⟨hfound.2, (targets_iff_any hends hleft.isUnconstrained).trans any_eraseP_iff⟩

/-! ## Series of edits that insert each version once -/

/-- A version has as many rollouts as it has lines. -/
theorem countP_targets (m : Mapping) (version : String) :
    m.entries.countP (Entry.targets version) =
      m.ledger.countP (·.runtimeVersion = version) := by
  rw [ledger, ledgerOf, List.countP_filterMap]
  apply List.countP_congr
  intro entry _
  rw [Entry.targets_eq_any]
  cases entry.line? <;> simp

theorem countP_setFirst (version other : String) (percent : Percent) (lines : List LedgerLine) :
    (setFirst version percent lines).countP (·.runtimeVersion = other) =
      lines.countP (·.runtimeVersion = other) := by
  induction lines with
  | nil => rfl
  | cons line lines ih =>
    rw [setFirst]
    split
    · simp [List.countP_cons]
    · simp [List.countP_cons, ih]

/-- No version has two rollouts. -/
def OncePerVersion (m : Mapping) : Prop :=
  ∀ version, m.entries.countP (Entry.targets version) ≤ 1

/-- Every rollout that is inserted on the way is for a version that is not concerned by then. -/
def InsertsFresh (m : Mapping) : List Edit → Prop
  | [] => True
  | e :: edits =>
    (∀ branchId percent version, e = .insert branchId percent version →
      m.targets version = false) ∧ (m.step e).InsertsFresh edits

theorem VersionsOnly.step {m : Mapping} (hm : m.VersionsOnly) (e : Edit) :
    (m.step e).VersionsOnly := by
  unfold Mapping.step
  split
  · next edited h => exact hm.edit h
  · exact hm

theorem endsInFallback_step {m : Mapping} (hm : m.endsInFallback = true) (e : Edit) :
    (m.step e).endsInFallback = true := by
  unfold step
  split
  · next edited h => exact endsInFallback_of_edit h
  · exact hm

/-- An edit that inserts no version twice leaves no version with two rollouts. -/
theorem OncePerVersion.step {m : Mapping} (honce : m.OncePerVersion) (hm : m.VersionsOnly)
    (hends : m.endsInFallback = true) {e : Edit}
    (hfresh : ∀ branchId percent version, e = .insert branchId percent version →
      m.targets version = false) : (m.step e).OncePerVersion := by
  intro version
  have hledger := fun he => (step_follows_ledger hends (e := e) he).2
  have hcount := honce version
  rw [countP_targets] at hcount ⊢
  cases e with
  | insert branchId percent inserted =>
    have hnew : m.ledger.countP (·.runtimeVersion = inserted) = 0 := by
      have hnone := hfresh _ _ _ rfl
      rw [← Bool.not_eq_true, targets_iff_any hends hm.isUnconstrained, List.any_eq_true,
        ← List.countP_pos_iff, countP_targets] at hnone
      omega
    rw [hledger (by simp), ledgerStep, List.countP_cons]
    by_cases hv : inserted = version
    · subst hv
      simp [hnew]
    · simpa [hv] using hcount
  | setPercentFor other percent =>
    rw [hledger (by simp), ledgerStep, countP_setFirst]
    exact hcount
  | setPercent percent =>
    rw [hledger (by simp)]
    exact hcount
  | remove other =>
    rw [hledger (by simp), ledgerStep]
    exact Nat.le_trans List.eraseP_sublist.countP_le hcount
  | finish outcome =>
    -- there is no unconstrained rollout to be finished
    have hfails : m.step (.finish outcome) = m := by
      have hu := isUnconstrained_eq_false_iff.1 hm.isUnconstrained
      simp [Mapping.step, Mapping.edit, endRollout, hu]
    rw [hfails]
    exact hcount

theorem OncePerVersion.run {m : Mapping} {edits : List Edit} (honce : m.OncePerVersion)
    (hm : m.VersionsOnly) (hends : m.endsInFallback = true) (hfresh : m.InsertsFresh edits) :
    (m.run edits).OncePerVersion := by
  induction edits generalizing m with
  | nil => exact honce
  | cons e edits ih =>
    obtain ⟨hfirst, hrest⟩ := hfresh
    exact ih (honce.step hm hends hfirst) (hm.step e) (endsInFallback_step hends e) hrest

theorem VersionsOnly.run {m : Mapping} (hm : m.VersionsOnly) (edits : List Edit) :
    (m.run edits).VersionsOnly := by
  induction edits generalizing m with
  | nil => exact hm
  | cons e edits ih => exact ih (hm.step e)

theorem versionsOnly_standard (branchId : String) : (standard branchId).VersionsOnly := by
  intro entry hmem
  rw [List.mem_singleton.1 hmem]
  exact .inl rfl

theorem oncePerVersion_standard (branchId : String) : (standard branchId).OncePerVersion :=
  fun _ => Nat.zero_le 1

/-- **When removing a rollout ends it.** Of a mapping that any edits lead to from a standard one,
removing the rollout for a version ends it just when it was the only one for that version. It
always is if every insertion on the way was for a version that was not concerned by then. -/
theorem removeRollout_ends_iff (branchId : String) (edits : List Edit) :
    (∀ version left, ((standard branchId).run edits).removeRollout version = .ok left →
      (left.targets version = false ↔
        ((standard branchId).run edits).entries.countP (Entry.targets version) = 1)) ∧
      ((standard branchId).InsertsFresh edits → ∀ version,
        ((standard branchId).run edits).entries.countP (Entry.targets version) ≤ 1 ∧
          ∀ left, ((standard branchId).run edits).removeRollout version = .ok left →
            left.targets version = false) := by
  have hm := (versionsOnly_standard branchId).run edits
  have hends : ∀ version left, ((standard branchId).run edits).removeRollout version = .ok left →
      (left.targets version = false ↔
        ((standard branchId).run edits).entries.countP (Entry.targets version) = 1) := by
    intro version left h
    obtain ⟨hone, htwo⟩ := targets_after_remove hm h
    rw [← Bool.not_eq_true, htwo]
    omega
  refine ⟨hends, ?_⟩
  intro hfresh version
  have honce := (oncePerVersion_standard branchId).run (versionsOnly_standard branchId) rfl hfresh
    version
  refine ⟨honce, ?_⟩
  intro left h
  rw [hends version left h]
  exact Nat.le_antisymm honce (targets_after_remove hm h).1

/-- Two versions, each inserted once, and a change to the first. -/
def onceEach : List Edit :=
  [.insert "B2" .zero "1.0.0", .insert "B3" .zero "2.0.0", .setPercentFor "1.0.0" .full]

/-- When each version is inserted once, removing the first one ends it. -/
theorem removeRollout_ends_inserted_once :
    (standard "B1").InsertsFresh onceEach ∧
      ∃ left, ((standard "B1").run onceEach).removeRollout "1.0.0" = .ok left ∧
        left.targets "1.0.0" = false := by
  have hfresh : (standard "B1").InsertsFresh onceEach := by
    refine ⟨?_, ?_, by simp, trivial⟩
    · rintro _ _ _ ⟨⟩
      decide +kernel
    · rintro _ _ _ ⟨⟩
      decide +kernel
  obtain ⟨left, hleft⟩ := Outcome.exists_of_isOk
    (x := ((standard "B1").run onceEach).removeRollout "1.0.0") (by decide +kernel)
  exact ⟨hfresh, left, hleft,
    ((removeRollout_ends_iff "B1" onceEach).2 hfresh "1.0.0").2 left hleft⟩

/-- A version that is inserted twice has two rollouts, and is still concerned when one of them
is removed. -/
theorem removeRollout_leaves_second :
    ∃ once twice left, (standard "B1").insertRollout "B2" ⟨10, by decide⟩ "1.0.0" = .ok once ∧
      once.insertRollout "B3" ⟨50, by decide⟩ "1.0.0" = .ok twice ∧
      twice.entries.countP (Entry.targets "1.0.0") = 2 ∧
      twice.removeRollout "1.0.0" = .ok left ∧ left.targets "1.0.0" = true := by
  refine ⟨_, _, _, insertRollout_eq rfl _ _ _, insertRollout_eq rfl _ _ _, ?_,
    removeRollout_eq_ok.2 ⟨?_, rfl⟩, ?_⟩
  · decide +kernel
  · decide +kernel
  · decide +kernel

end Mapping

end StagedRollout
