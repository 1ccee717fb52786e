/-
# StagedRollout.Proofs.Rollout.Version -- the version of an edited mapping

Every edit copies the version of the mapping that it changes, except the one that ends an
unconstrained rollout: it makes a new mapping, at the current version whatever the old one was at.
So a series of edits keeps the version until it first ends a rollout, and from there on the version
is the current one (`Mapping.version_run`). A check of the version therefore gives the same answer
before and after the series, unless a rollout of another version was ended in between
(`Mapping.version_check_survives`); such a mapping passes afterwards for one that is understood
(`Mapping.ended_passes_version_check`).
-/
import StagedRollout.Proofs.Rollout.Admission

namespace StagedRollout

namespace Mapping

/-! ## Checking the version -/

theorem checkVersion_eq_ok {m : Mapping} {expected : UInt32} :
    m.checkVersion expected = .ok () ↔ m.version = expected := by
  unfold checkVersion
  split <;> simp [*]

/-- The answer of the check, with what it says of another version, depends on the version alone. -/
theorem checkVersion_congr {m m' : Mapping} (h : m.version = m'.version) (expected : UInt32) :
    m.checkVersion expected = m'.checkVersion expected := by
  rw [checkVersion, checkVersion, h]

/-- Two mappings pass the same checks only if they are at the same version. -/
theorem version_eq_of_checks {m m' : Mapping}
    (h : ∀ expected, m.checkVersion expected = .ok () ↔ m'.checkVersion expected = .ok ()) :
    m.version = m'.version :=
  (checkVersion_eq_ok.1 ((h m.version).1 (checkVersion_eq_ok.2 rfl))).symm

/-! ## One edit -/

/-- What becomes of the version where an edit is tried. -/
theorem version_step (m : Mapping) (e : Edit) :
    (m.step e).version =
      if e.isFinish && m.isUnconstrained then currentVersion else m.version := by
  have hgate := m.gated_edit e
  unfold step
  cases hedit : m.edit e with
  | ok edited =>
    have hadmits : m.admits e = true := hgate.exists_ok_iff.1 ⟨edited, hedit⟩
    show edited.version = _
    rw [version_edit hedit]
    -- the gate of the edit that ends a rollout is that there is one
    cases e with
    | finish outcome => rw [show m.isUnconstrained = true from hadmits]; rfl
    | _ => rfl
  | error cause =>
    have hrefuses : m.admits e = false := ((hgate.error_iff cause).1 hedit).1
    show m.version = _
    cases e with
    | finish outcome => rw [show m.isUnconstrained = false from hrefuses]; rfl
    | _ => rfl

/-! ## Series of edits -/

/-- At some place in a series of edits an unconstrained rollout is ended. -/
def EndsRollout (m : Mapping) (edits : List Edit) : Prop :=
  ∃ front outcome behind, edits = front ++ .finish outcome :: behind ∧
    (m.run front).isUnconstrained = true

theorem endsRollout_nil (m : Mapping) : ¬m.EndsRollout [] := by
  rintro ⟨front, outcome, behind, hedits, -⟩
  exact absurd hedits (by simp)

/-- The place is the first edit or a later one. -/
theorem endsRollout_cons {m : Mapping} {e : Edit} {edits : List Edit} :
    m.EndsRollout (e :: edits) ↔
      (e.isFinish && m.isUnconstrained) = true ∨ (m.step e).EndsRollout edits := by
  constructor
  · rintro ⟨front, outcome, behind, hedits, hrollout⟩
    cases front with
    | nil =>
      obtain ⟨rfl, rfl⟩ := List.cons.inj hedits
      exact .inl hrollout
    | cons first front =>
      obtain ⟨rfl, rfl⟩ := List.cons.inj hedits
      exact .inr ⟨front, outcome, behind, rfl, hrollout⟩
  · rintro (hfirst | ⟨front, outcome, behind, rfl, hrollout⟩)
    · rw [Bool.and_eq_true] at hfirst
      obtain ⟨hfinish, hrollout⟩ := hfirst
      cases e with
      | finish outcome => exact ⟨[], outcome, edits, rfl, hrollout⟩
      | _ => exact absurd hfinish Bool.false_ne_true
    · exact ⟨e :: front, outcome, behind, rfl, hrollout⟩

/-- **The version after a series of edits** is the current one if a rollout was ended on the way, and
the old one otherwise. -/
theorem version_run (m : Mapping) (edits : List Edit) :
    (m.EndsRollout edits → (m.run edits).version = currentVersion) ∧
      (¬m.EndsRollout edits → (m.run edits).version = m.version) := by
  induction edits generalizing m with
  | nil => exact ⟨fun h => absurd h m.endsRollout_nil, fun _ => rfl⟩
  | cons e edits ih =>
    obtain ⟨hends, hkeeps⟩ := ih (m.step e)
    have hstep := m.version_step e
    rw [endsRollout_cons, run, List.foldl_cons, ← run]
    by_cases hrest : (m.step e).EndsRollout edits
    · exact ⟨fun _ => hends hrest, fun h => absurd (.inr hrest) h⟩
    · -- the rest of the series keeps what the first edit leaves
      rw [hkeeps hrest, hstep]
      cases e.isFinish && m.isUnconstrained with
      | true => simp
      | false => simp [hrest]

/-- **Which series of edits a version check survives.** As long as no rollout is ended, the check
gives the answer that it gave before, to every version that is asked for. Once one is ended, it is
passed for the current version and for no other. So the mapping passes the same checks as before
just when no rollout was ended, or the mapping was at the current version all along. -/
theorem version_check_survives (m : Mapping) (edits : List Edit) :
    (¬m.EndsRollout edits →
      ∀ expected, (m.run edits).checkVersion expected = m.checkVersion expected) ∧
    (m.EndsRollout edits →
      ∀ expected, (m.run edits).checkVersion expected = .ok () ↔ expected = currentVersion) ∧
    ((∀ expected, (m.run edits).checkVersion expected = .ok () ↔ m.checkVersion expected = .ok ()) ↔
      ¬m.EndsRollout edits ∨ m.version = currentVersion) := by
  obtain ⟨hends, hkeeps⟩ := m.version_run edits
  refine ⟨fun h => checkVersion_congr (hkeeps h), ?_, ?_⟩
  · intro h expected
    rw [checkVersion_eq_ok, hends h, eq_comm]
  · constructor
    · intro hchecks
      by_cases h : m.EndsRollout edits
      · exact .inr ((version_eq_of_checks hchecks).symm.trans (hends h))
      · exact .inl h
    · intro h expected
      have hversion : (m.run edits).version = m.version := by
        by_cases hrollout : m.EndsRollout edits
        · rw [hends hrollout, h.resolve_left (not_not_intro hrollout)]
        · exact hkeeps hrollout
      rw [checkVersion_congr hversion]

/-- An unconstrained rollout in a mapping of a version to come. -/
def rolloutAhead : Mapping := ⟨7, [⟨"B2", .share .full⟩, ⟨"B1", .alwaysTrue⟩]⟩

/-- Three edits of that mapping, one of which does not apply, leave it at its version. -/
theorem version_check_survives_ahead :
    ¬rolloutAhead.EndsRollout [.setPercent .zero, .remove "1.0", .insert "B3" .full "1.0"] ∧
      ∀ expected, (rolloutAhead.run [.setPercent .zero, .remove "1.0",
        .insert "B3" .full "1.0"]).checkVersion expected = rolloutAhead.checkVersion expected := by
  have hnone : ¬rolloutAhead.EndsRollout
      [.setPercent .zero, .remove "1.0", .insert "B3" .full "1.0"] := by
    rw [endsRollout_cons, endsRollout_cons, endsRollout_cons]
    simp [Edit.isFinish, endsRollout_nil]
  exact ⟨hnone, (version_check_survives rolloutAhead _).1 hnone⟩

/-- When its rollout is ended, the mapping passes the check that it failed before. -/
theorem ended_passes_version_check :
    rolloutAhead.checkVersion currentVersion = .error (.versionMismatch 0 7) ∧
      (rolloutAhead.run [.finish .revert]).checkVersion currentVersion = .ok () := by
  have hrollout : rolloutAhead.unconstrained? =
      some (⟨"B2", .share .full⟩, .share .full, ⟨"B1", .alwaysTrue⟩) :=
    unconstrained?_eq_some.2 ⟨rfl, rfl, Predicate.isShare_share .full, rfl⟩
  have hends : rolloutAhead.EndsRollout [.finish .revert] :=
    ⟨[], .revert, [], rfl, isUnconstrained_iff.2 ⟨_, hrollout⟩⟩
  exact ⟨rfl, checkVersion_eq_ok.2 ((version_run _ _).1 hends)⟩

end Mapping

end StagedRollout
