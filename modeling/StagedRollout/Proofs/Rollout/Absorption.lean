/-
# StagedRollout.Proofs.Rollout.Absorption -- edits of the same rollout

An edit of a rollout finds what the one before it has left, so only the later one counts. The
reason is that a share can be set again: the entry whose share was set is still the first one for
its version, and of what is set next nothing depends on the old share (`Node.withPercent?_again`).
Hence a change of a percentage is absorbed by whatever alters the same rollout after it, an
insertion takes up the percentage that is set next, and an inserted rollout that is removed leaves
no trace (`Mapping.edits_absorb`). All of these are equalities of whole mappings.
-/
import StagedRollout.Proofs.Rollout.Admission
import StagedRollout.Proofs.Rollout.Independence

namespace StagedRollout

/- The stored fraction is a quotient of large numbers, which nothing here looks into. -/
attribute [local irreducible] Percent.fraction Percent.ofFraction

/-! ## Setting a share again -/

/-- A share that was set is set like any other: the old one is forgotten. -/
theorem Node.withPercent?_again {node changed : Node} {percent : Percent}
    (h : node.withPercent? percent = some changed) (next : Percent) :
    changed.withPercent? next = node.withPercent? next := by
  rcases withPercent?_eq_some.1 h with ⟨share, rfl, hshare, rfl⟩ |
    ⟨front, share, behind, rfl, hfront, hshare, rfl⟩
  · have hset := Predicate.isShare_setShare hshare percent
    rw [withPercent?_eq_some.2 (.inl ⟨share, rfl, hshare, rfl⟩)]
    exact withPercent?_eq_some.2 (.inl ⟨_, rfl, hset, rfl⟩)
  · -- the nodes in front are no shares, so the search comes to the same place
    have hset := Predicate.isShare_setShare hshare percent
    rw [withPercent?_eq_some.2 (.inr ⟨front, share, behind, rfl, hfront, hshare, rfl⟩)]
    exact withPercent?_eq_some.2 (.inr ⟨front, _, behind, rfl, hfront, hset, rfl⟩)

namespace Entry

theorem withPercent?_again {entry changed : Entry} {percent : Percent}
    (h : entry.withPercent? percent = some changed) (next : Percent) :
    changed.withPercent? next = entry.withPercent? next := by
  obtain ⟨logic, hlogic, rfl⟩ := Option.map_eq_some_iff.1 h
  rw [withPercent?, withPercent?, Node.withPercent?_again hlogic]

/-- The entry for a version whose share was set is an entry for that version. -/
theorem targets_of_withPercent? {entry changed : Entry} {version : String} {percent : Percent}
    (h : entry.targets version = true) (hset : entry.withPercent? percent = some changed) :
    changed.targets version = true := by
  obtain ⟨other, line, hother, -, hversion, hline, -⟩ := withPercent?_of_targets h percent
  obtain rfl : changed = other := Option.some.inj (hset.symm.trans hother)
  rw [targets_eq_any, hline, Option.any_some, decide_eq_true_eq]
  exact hversion

/-- Setting the share of an inserted entry is inserting it with that share. -/
theorem withPercent?_inserted (branchId version : String) (percent next : Percent) :
    (⟨branchId, .constrained version percent⟩ : Entry).withPercent? next =
      some ⟨branchId, .constrained version next⟩ := by
  have hshare : (Predicate.share percent).isShare = true :=
    (Predicate.isShare_iff _).2 ⟨rfl, rfl, _, rfl, percent.isFraction_fraction⟩
  have hscope : ∀ node ∈ [Node.predicate (.version version)], node.isShare = false := by
    intro node hnode
    rw [List.mem_singleton.1 hnode]
    exact Predicate.isShare_of_runtimeVersion? rfl
  have hlogic : Node.constrained version percent =
      .all ([.predicate (.version version)] ++ .predicate (.share percent) :: []) := rfl
  exact withPercent?_of_split hlogic hscope hshare next

end Entry

/-! ## Changing the first entry for a version again -/

/-- A change of the first entry for a version that leaves one entry for it is forgotten by a second
change that treats the two entries alike. -/
theorem changeFirst_again {version : String} {become next : Entry → List Entry}
    (h : ∀ entry : Entry, entry.targets version = true →
      ∃ made, become entry = [made] ∧ made.targets version = true ∧ next made = next entry)
    (entries : List Entry) :
    (changeFirst version become entries).bind (changeFirst version next) =
      changeFirst version next entries := by
  induction entries with
  | nil => rfl
  | cons entry rest ih =>
    cases ht : entry.targets version with
    | true =>
      obtain ⟨made, hbecome, hmade, hnext⟩ := h entry ht
      rw [changeFirst_of_targets ht, changeFirst_of_targets ht, hbecome, Option.bind_some,
        List.singleton_append, changeFirst_of_targets hmade, hnext]
    | false =>
      rw [changeFirst_of_not_targets ht, changeFirst_of_not_targets ht, ← ih]
      cases changeFirst version become rest with
      | none => rfl
      | some rest' => exact changeFirst_of_not_targets ht rest'

namespace Edit

/-- **A percentage that is set first is forgotten** by whatever alters the rollout next. -/
theorem Alters.act_again {f : Edit} {version : String} (hf : f.Alters version) (percent : Percent)
    (entries : List Entry) :
    ((Edit.setPercentFor version percent).act entries).bind f.act = f.act entries := by
  cases hf with
  | setPercentFor next =>
    apply changeFirst_again
    intro entry hentry
    obtain ⟨changed, _, hset, -⟩ := Entry.withPercent?_of_targets hentry percent
    refine ⟨changed, ?_, Entry.targets_of_withPercent? hentry hset, ?_⟩
    · rw [hset]
      rfl
    · rw [Entry.withPercent?_again hset]
  | remove =>
    apply changeFirst_again
    intro entry hentry
    obtain ⟨changed, _, hset, -⟩ := Entry.withPercent?_of_targets hentry percent
    refine ⟨changed, ?_, Entry.targets_of_withPercent? hentry hset, rfl⟩
    rw [hset]
    rfl

/-- An inserted rollout is the first one for its version, so it is the one that is altered next. -/
theorem act_insert_bind (branchId version : String) (percent : Percent)
    (become : Entry → List Entry) (entries : List Entry) :
    ((Edit.insert branchId percent version).act entries).bind (changeFirst version become) =
      some (become ⟨branchId, .constrained version percent⟩ ++ entries) := by
  rw [act, Option.bind_some,
    changeFirst_of_targets (targets_inserted_self branchId version percent)]

/-- Changes the percentage of an unconstrained rollout, or finishes it. -/
inductive AltersUnconstrained : Edit → Prop
  | setPercent (percent : Percent) : AltersUnconstrained (.setPercent percent)
  | finish (outcome : Outcome) : AltersUnconstrained (.finish outcome)

/-- An unconstrained rollout is what such an edit asks for. -/
theorem AltersUnconstrained.admits_eq {e : Edit} (he : e.AltersUnconstrained) (m : Mapping) :
    m.admits e = m.isUnconstrained := by
  cases he <;> rfl

end Edit

namespace Mapping

/-! ## Two edits of one mapping -/

/-- Two edits on rollouts that act like a third one lead where the third one does. -/
theorem editBoth_iff_edit {m : Mapping} {e f g : Edit} {version other third : String}
    (he : e.On version) (hf : f.On other) (hg : g.On third)
    (hact : (e.act m.entries).bind f.act = g.act m.entries) (edited : Mapping) :
    m.editBoth e f = .ok edited ↔ m.edit g = .ok edited := by
  rw [editBoth_eq_ok he hf, edit_eq_ok_of_on hg, hact]

/-- After the share of an unconstrained rollout was set, another percentage and either outcome lead
where they would have led before. -/
theorem editBoth_setPercent {m : Mapping} {first fallback : Entry} {share : Predicate}
    (hu : m.unconstrained? = some (first, share, fallback)) (percent : Percent) {e : Edit}
    (he : e.AltersUnconstrained) : m.editBoth (.setPercent percent) e = m.edit e := by
  have hchanged := unconstrained?_setShare hu percent
  rw [editBoth, edit, setPercent_of_unconstrained? hu, Outcome.ok_bind]
  cases he with
  | setPercent next =>
    rw [edit, edit, setPercent_of_unconstrained? hchanged, setPercent_of_unconstrained? hu]
  | finish outcome =>
    rw [edit, edit, endRollout_of_unconstrained? hchanged, endRollout_of_unconstrained? hu]

/-- **A percentage of an unconstrained rollout is forgotten** by whatever alters the rollout
next. -/
theorem editBoth_setPercent_iff {m : Mapping} (percent : Percent) {e : Edit}
    (he : e.AltersUnconstrained) (edited : Mapping) :
    m.editBoth (.setPercent percent) e = .ok edited ↔ m.edit e = .ok edited := by
  cases hu : m.unconstrained? with
  | some found =>
    obtain ⟨first, share, fallback⟩ := found
    rw [editBoth_setPercent hu percent he]
  | none =>
    -- neither of the two edits is admitted
    have hshut := isUnconstrained_eq_false_iff.2 hu
    have hfirst := ((m.gated_edit (.setPercent percent)).error_iff _).2 ⟨hshut, rfl⟩
    have halone := ((m.gated_edit e).error_iff _).2 ⟨(he.admits_eq m).trans hshut, rfl⟩
    rw [editBoth, hfirst, halone, Outcome.error_bind]
    simp

/-- An inserted rollout that is removed leaves the mapping as it was. -/
theorem editBoth_insert_remove {m : Mapping} (branchId version : String) (percent : Percent)
    (edited : Mapping) :
    m.editBoth (.insert branchId percent version) (.remove version) = .ok edited ↔
      (∃ inserted, m.edit (.insert branchId percent version) = .ok inserted) ∧ edited = m := by
  have hact : ((Edit.insert branchId percent version).act m.entries).bind
      (Edit.act (.remove version)) = some m.entries :=
    Edit.act_insert_bind branchId version percent (fun _ => []) m.entries
  rw [editBoth_eq_ok (.insert branchId percent) (.altered .remove), hact,
    (m.gated_edit (.insert branchId percent version)).exists_ok_iff]
  simp [admits]

/-- **Edits of one rollout absorb one another.** Of two changes of a percentage the later one
counts; a change of a percentage in front of a removal, or of the end of an unconstrained rollout,
makes no difference; and an inserted rollout whose percentage is changed could have been inserted
with that one. In each case the two ways succeed together, and with the same mapping. And what is
inserted can be removed, which leaves the mapping that there was before. -/
theorem edits_absorb (m : Mapping) (branchId version : String) (p q : Percent) (edited : Mapping) :
    (m.editBoth (.setPercentFor version p) (.setPercentFor version q) = .ok edited ↔
      m.edit (.setPercentFor version q) = .ok edited) ∧
    (m.editBoth (.insert branchId p version) (.setPercentFor version q) = .ok edited ↔
      m.edit (.insert branchId q version) = .ok edited) ∧
    (m.editBoth (.setPercentFor version p) (.remove version) = .ok edited ↔
      m.edit (.remove version) = .ok edited) ∧
    (m.editBoth (.setPercent p) (.setPercent q) = .ok edited ↔
      m.edit (.setPercent q) = .ok edited) ∧
    (∀ outcome, m.editBoth (.setPercent p) (.finish outcome) = .ok edited ↔
      m.edit (.finish outcome) = .ok edited) ∧
    (m.editBoth (.insert branchId p version) (.remove version) = .ok edited ↔
      (∃ inserted, m.edit (.insert branchId p version) = .ok inserted) ∧ edited = m) := by
  refine ⟨?_, ?_, ?_, ?_, ?_, ?_⟩
  · apply editBoth_iff_edit (.altered (.setPercentFor p)) (.altered (.setPercentFor q))
      (.altered (.setPercentFor q))
    exact Edit.Alters.act_again (.setPercentFor q) p m.entries
  · apply editBoth_iff_edit (.insert branchId p) (.altered (.setPercentFor q))
      (.insert branchId q)
    show ((Edit.insert branchId p version).act m.entries).bind (changeFirst version _) = _
    rw [Edit.act_insert_bind, Entry.withPercent?_inserted]
    rfl
  · apply editBoth_iff_edit (.altered (.setPercentFor p)) (.altered .remove) (.altered .remove)
    exact Edit.Alters.act_again .remove p m.entries
  · exact editBoth_setPercent_iff p (.setPercent q) edited
  · intro outcome
    exact editBoth_setPercent_iff p (.finish outcome) edited
  · exact editBoth_insert_remove branchId version p edited

end Mapping

end StagedRollout
