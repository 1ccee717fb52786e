/-
# StagedRollout.Proofs.Rollout.Edited -- what an edit leaves

What every edit that succeeds has in common, whichever it is: the mapping that it leaves ends in a
fallback and has the version of the old mapping or the current one, and each of its entries is an
old one, an old one with another share, the one that was inserted, or the one that a finished
rollout collapses into (`Mapping.mem_of_edit`).
-/
import StagedRollout.Proofs.Rollout.Ledger

namespace StagedRollout

/- The stored fraction is a quotient of large numbers, which nothing here looks into. -/
attribute [local irreducible] Percent.fraction Percent.ofFraction

/-! ## Setting a percentage by its version -/

/-- An entry whose share is set is for the same branch. -/
theorem Entry.branchId_of_withPercent? {entry changed : Entry} {percent : Percent}
    (h : entry.withPercent? percent = some changed) : changed.branchId = entry.branchId := by
  obtain ⟨logic, -, rfl⟩ := Option.map_eq_some_iff.1 h
  rfl

/-- Among entries, the first one for a version has its share set, and nothing else changes. -/
theorem exists_split_of_withPercentFor? {version : String} {percent : Percent}
    {entries changed : List Entry} (h : withPercentFor? version percent entries = some changed) :
    ∃ front entry behind made, entries = front ++ entry :: behind ∧
      (∀ other ∈ front, other.targets version = false) ∧ entry.targets version = true ∧
      entry.withPercent? percent = some made ∧ changed = front ++ made :: behind := by
  induction entries generalizing changed with
  | nil => exact absurd h (by simp [withPercentFor?])
  | cons first rest ih =>
    cases htargets : first.targets version with
    | true =>
      rw [withPercentFor?, if_pos htargets] at h
      obtain ⟨made, hset, rfl⟩ := Option.map_eq_some_iff.1 h
      exact ⟨[], first, rest, made, rfl, by simp, htargets, hset, rfl⟩
    | false =>
      rw [withPercentFor?, if_neg (Bool.eq_false_iff.1 htargets)] at h
      obtain ⟨rest', hrest, rfl⟩ := Option.map_eq_some_iff.1 h
      obtain ⟨front, entry, behind, made, rfl, hfront, hentry, hset, rfl⟩ := ih hrest
      exact ⟨first :: front, entry, behind, made, rfl,
        List.forall_mem_cons.2 ⟨htargets, hfront⟩, hentry, hset, rfl⟩

/-- Every entry of the result is an old one, or an old one with its share set. -/
theorem mem_withPercentFor? {version : String} {percent : Percent} {entries changed : List Entry}
    (h : withPercentFor? version percent entries = some changed) {entry : Entry}
    (hmem : entry ∈ changed) :
    entry ∈ entries ∨ ∃ old ∈ entries, old.withPercent? percent = some entry := by
  obtain ⟨front, old, behind, made, rfl, -, -, hset, rfl⟩ := exists_split_of_withPercentFor? h
  rw [List.mem_append, List.mem_cons] at hmem
  rcases hmem with hfront | rfl | hbehind
  · exact .inl (List.mem_append_left _ hfront)
  · exact .inr ⟨old, List.mem_append_right _ List.mem_cons_self, hset⟩
  · exact .inl (List.mem_append_right _ (List.mem_cons_of_mem _ hbehind))

/-- The edit that ends an unconstrained rollout. -/
def Edit.isFinish : Edit → Bool
  | .finish _ => true
  | _ => false

namespace Mapping

/-! ## Each of the edits, from its success -/

theorem endsInFallback_of_hasRolloutFor {m : Mapping} {version : String}
    (h : m.hasRolloutFor version = true) : m.endsInFallback = true := by
  rw [hasRolloutFor, Bool.and_eq_true] at h
  exact h.1

/-- Inserting succeeds in front of a fallback and nowhere else. -/
theorem insertRollout_eq_ok {m inserted : Mapping} {branchId version : String}
    {percent : Percent} :
    m.insertRollout branchId percent version = .ok inserted ↔
      m.endsInFallback = true ∧
        inserted = { m with entries := ⟨branchId, .constrained version percent⟩ :: m.entries } := by
  constructor
  · intro h
    unfold insertRollout at h
    dsimp only at h
    split at h
    · next hfound =>
      refine ⟨?_, (Except.ok.inj h).symm⟩
      -- the entry in front is no fallback, so the last one was there before
      rcases endsInFallback_cons.1 (endsInFallback_of_hasRolloutFor hfound) with ⟨-, hcatch⟩ | hm
      · exact absurd hcatch Bool.false_ne_true
      · exact hm
    · exact absurd h (by simp)
  · rintro ⟨hm, rfl⟩
    exact insertRollout_eq hm branchId percent version

theorem setPercentFor_eq_ok {m changed : Mapping} {version : String} {percent : Percent} :
    m.setPercentFor version percent = .ok changed ↔
      m.hasRolloutFor version = true ∧
        ∃ entries, withPercentFor? version percent m.entries = some entries ∧
          changed = { m with entries } := by
  unfold setPercentFor
  cases m.hasRolloutFor version with
  | false => simp
  | true =>
    cases withPercentFor? version percent m.entries with
    | none => simp
    | some entries => simp [eq_comm]

/-- A change by its version sets the share in the first entry for the version, which is the first
share among the nodes of that entry. -/
theorem exists_split_of_setPercentFor {m changed : Mapping} {version : String} {percent : Percent}
    (h : m.setPercentFor version percent = .ok changed) :
    ∃ front entry behind scopes share others, m.entries = front ++ entry :: behind ∧
      (∀ other ∈ front, other.targets version = false) ∧
      entry.logic = .all (scopes ++ .predicate share :: others) ∧
      entry.logic.constrained? = some (version, share) ∧
      changed = { m with entries := front ++ { entry with
        logic := .all (scopes ++ .predicate (share.setShare percent) :: others) } :: behind } := by
  obtain ⟨-, entries, hset, rfl⟩ := setPercentFor_eq_ok.1 h
  obtain ⟨front, entry, behind, made, hentries, hfront, htargets, hmade, rfl⟩ :=
    exists_split_of_withPercentFor? hset
  obtain ⟨share, hconstrained⟩ := Entry.targets_iff.1 htargets
  obtain ⟨scopes, others, hlogic, hscopes, -⟩ := Node.exists_split_of_constrained? hconstrained
  -- the predicate that is found for writing is the one that was found for reading
  obtain ⟨_, -, hshare, -⟩ := Node.constrained?_eq_some.1 hconstrained
  have hset' := Entry.withPercent?_of_split hlogic hscopes hshare percent
  obtain rfl := Option.some.inj (hmade.symm.trans hset')
  exact ⟨front, entry, behind, scopes, share, others, hentries, hfront, hlogic, hconstrained, rfl⟩

theorem removeRollout_eq_ok {m left : Mapping} {version : String} :
    m.removeRollout version = .ok left ↔
      m.hasRolloutFor version = true ∧
        left = { m with entries := m.entries.eraseP (Entry.targets version) } := by
  unfold removeRollout
  cases m.hasRolloutFor version with
  | false => simp
  | true => simp [eq_comm]

/-- Finishing a rollout leaves the standard mapping of one of its two branches. -/
theorem endRollout_eq_ok {m left : Mapping} {outcome : Outcome}
    (h : m.endRollout outcome = .ok left) :
    ∃ branchId ∈ m.branchIds, left = .standard branchId := by
  unfold endRollout at h
  split at h
  · next first _ fallback hu =>
    obtain ⟨hentries, -⟩ := unconstrained?_eq_some.1 hu
    cases outcome with
    | revert => exact ⟨fallback.branchId, by simp [branchIds, hentries], (Except.ok.inj h).symm⟩
    | promote => exact ⟨first.branchId, by simp [branchIds, hentries], (Except.ok.inj h).symm⟩
  · exact absurd h (by simp)

/-! ## Any edit -/

/-- Whatever edit succeeds leaves a mapping that ends in a fallback. -/
theorem endsInFallback_of_edit {m edited : Mapping} {e : Edit} (h : m.edit e = .ok edited) :
    edited.endsInFallback = true := by
  cases e with
  | insert branchId percent version =>
    obtain ⟨hm, rfl⟩ := insertRollout_eq_ok.1 h
    exact endsInFallback_cons.2 (.inr hm)
  | setPercentFor version percent =>
    obtain ⟨hfound, -⟩ := setPercentFor_eq_ok.1 h
    have hm := endsInFallback_of_hasRolloutFor hfound
    exact ((followsLedger hm).setPercentFor version percent edited h).1
  | setPercent percent => exact (setPercent_keeps h).1
  | remove version =>
    obtain ⟨hfound, rfl⟩ := removeRollout_eq_ok.1 h
    exact endsInFallback_eraseP (endsInFallback_of_hasRolloutFor hfound)
  | finish outcome =>
    obtain ⟨branchId, -, rfl⟩ := endRollout_eq_ok h
    rfl

/-- A finished rollout is at the current version, and no other edit changes the version. -/
theorem version_edit {m edited : Mapping} {e : Edit} (h : m.edit e = .ok edited) :
    edited.version = if e.isFinish then currentVersion else m.version := by
  cases e with
  | insert branchId percent version =>
    obtain ⟨-, rfl⟩ := insertRollout_eq_ok.1 h
    rfl
  | setPercentFor version percent =>
    obtain ⟨-, entries, -, rfl⟩ := setPercentFor_eq_ok.1 h
    rfl
  | setPercent percent =>
    obtain ⟨_, _, _, -, rfl⟩ := unconstrained?_setPercent h
    rfl
  | remove version =>
    obtain ⟨-, rfl⟩ := removeRollout_eq_ok.1 h
    rfl
  | finish outcome =>
    obtain ⟨branchId, -, rfl⟩ := endRollout_eq_ok h
    rfl

theorem version_of_edit {m edited : Mapping} {e : Edit} (h : m.edit e = .ok edited) :
    edited.version = m.version ∨ edited.version = currentVersion := by
  rw [version_edit h]
  cases e.isFinish with
  | true => exact .inr rfl
  | false => exact .inl rfl

/-- Where an entry of an edited mapping comes from. -/
inductive Origin (m : Mapping) (entry : Entry) : Prop
  | kept (hmem : entry ∈ m.entries)
  | changed {old : Entry} {percent : Percent} (hmem : old ∈ m.entries)
      (hset : old.withPercent? percent = some entry)
  | inserted {branchId version : String} {percent : Percent}
      (hnew : entry = ⟨branchId, .constrained version percent⟩)
  | collapsed {branchId : String} (hnew : entry = ⟨branchId, .alwaysTrue⟩)

/-- **Every entry of an edited mapping has an origin**: it was there, perhaps with another share,
or it is one of the two kinds of entries that edits make. -/
theorem mem_of_edit {m edited : Mapping} {e : Edit} (h : m.edit e = .ok edited) {entry : Entry}
    (hmem : entry ∈ edited.entries) : m.Origin entry := by
  cases e with
  | insert branchId percent version =>
    obtain ⟨-, rfl⟩ := insertRollout_eq_ok.1 h
    rcases List.mem_cons.1 hmem with hnew | hmem
    · exact .inserted hnew
    · exact .kept hmem
  | setPercentFor version percent =>
    obtain ⟨-, entries, hset, rfl⟩ := setPercentFor_eq_ok.1 h
    obtain hmem | ⟨old, hold, hset⟩ := mem_withPercentFor? hset hmem
    · exact .kept hmem
    · exact .changed hold hset
  | setPercent percent =>
    obtain ⟨first, share, fallback, hu, rfl⟩ := unconstrained?_setPercent h
    obtain ⟨hentries, hlogic, hshare, -⟩ := unconstrained?_eq_some.1 hu
    have hset := Entry.withPercent?_of_isShare hlogic hshare percent
    rcases List.mem_cons.1 hmem with rfl | hmem
    · exact .changed (by rw [hentries]; exact List.mem_cons_self) hset
    · exact .kept (by rw [hentries]; exact List.mem_cons_of_mem _ hmem)
  | remove version =>
    obtain ⟨-, rfl⟩ := removeRollout_eq_ok.1 h
    exact .kept (List.mem_of_mem_eraseP hmem)
  | finish outcome =>
    obtain ⟨branchId, -, rfl⟩ := endRollout_eq_ok h
    exact .collapsed (List.mem_singleton.1 hmem)

/-- The branches of an edited mapping are old ones, except for the branch of an insertion. -/
theorem mem_branchIds_of_edit {m edited : Mapping} {e : Edit} (h : m.edit e = .ok edited)
    {branchId : String} (hmem : branchId ∈ edited.branchIds) :
    branchId ∈ m.branchIds ∨ ∃ percent version, e = .insert branchId percent version := by
  obtain ⟨entry, hentry, rfl⟩ := List.mem_map.1 hmem
  cases e with
  | insert branchId percent version =>
    obtain ⟨-, rfl⟩ := insertRollout_eq_ok.1 h
    rcases List.mem_cons.1 hentry with rfl | hold
    · exact .inr ⟨percent, version, rfl⟩
    · exact .inl (List.mem_map_of_mem hold)
  | setPercentFor version percent =>
    obtain ⟨-, entries, hset, rfl⟩ := setPercentFor_eq_ok.1 h
    left
    obtain hold | ⟨old, hold, hchanged⟩ := mem_withPercentFor? hset hentry
    · exact List.mem_map_of_mem hold
    · rw [Entry.branchId_of_withPercent? hchanged]
      exact List.mem_map_of_mem hold
  | setPercent percent =>
    obtain ⟨first, share, fallback, hu, rfl⟩ := unconstrained?_setPercent h
    obtain ⟨hentries, -⟩ := unconstrained?_eq_some.1 hu
    left
    rw [branchIds, hentries]
    -- the entry in front has another logic and the same branch
    rcases List.mem_cons.1 hentry with rfl | hrest
    · exact List.mem_cons_self
    · exact List.mem_cons_of_mem _ (List.mem_map_of_mem hrest)
  | remove version =>
    obtain ⟨-, rfl⟩ := removeRollout_eq_ok.1 h
    exact .inl (List.mem_map_of_mem (List.mem_of_mem_eraseP hentry))
  | finish outcome =>
    obtain ⟨branchId, hold, rfl⟩ := endRollout_eq_ok h
    rw [List.mem_singleton.1 hentry]
    exact .inl hold

end Mapping

end StagedRollout
