/-
# StagedRollout.Proofs.Rollout.Independence -- rollouts of different runtime versions

Changing the percentage of a rollout and removing it look alike from outside: the first entry for a
version is found, and something else is put in its place, one entry or none. `changeFirst` is that
operation, and two of them commute when they are for different versions, because no entry is a
rollout for two versions and none becomes one for another (`changeFirst_comm`). An insertion adds an
entry that a search for another version passes over. All of these edits ask for a fallback at the
end and leave one there, so that their order is irrelevant (`Mapping.edits_commute`).

Two insertions do not commute as mappings, since the later one stands in front, but nothing that is
reported of a runtime version depends on that.
-/
import StagedRollout.Proofs.Rollout.Edited
import StagedRollout.Proofs.Outcome

namespace StagedRollout

/- The stored fraction is a quotient of large numbers, which nothing here looks into. -/
attribute [local irreducible] Percent.fraction Percent.ofFraction

/-! ## The first entry for a version -/

/-- Entries with the first one for a version replaced. There has to be one. -/
def changeFirst (version : String) (become : Entry → List Entry) :
    List Entry → Option (List Entry)
  | [] => none
  | entry :: rest =>
    if entry.targets version then some (become entry ++ rest)
    else (entry :: ·) <$> changeFirst version become rest

/-- What the entries for a version become is for no rollout of another version. -/
def KeepsOff (version other : String) (become : Entry → List Entry) : Prop :=
  ∀ entry : Entry, entry.targets version = true →
    ∀ made ∈ become entry, made.targets other = false

/-- No entry is a rollout for two versions. -/
theorem Entry.targets_of_ne {entry : Entry} {version other : String} (hne : version ≠ other)
    (h : entry.targets version = true) : entry.targets other = false := by
  rw [targets, decide_eq_true_eq] at h
  rw [targets, h, decide_eq_false_iff_not, Option.some.injEq]
  exact hne

section changeFirst

variable {version other : String} {become become' : Entry → List Entry} {entry : Entry}

theorem changeFirst_of_targets (h : entry.targets version = true) (rest : List Entry) :
    changeFirst version become (entry :: rest) = some (become entry ++ rest) := by
  rw [changeFirst, if_pos h]

theorem changeFirst_of_not_targets (h : entry.targets version = false) (rest : List Entry) :
    changeFirst version become (entry :: rest) =
      (changeFirst version become rest).map (entry :: ·) := by
  rw [changeFirst, if_neg (Bool.eq_false_iff.1 h)]
  rfl

/-- The search passes over entries that are not for its version. -/
theorem changeFirst_append {front : List Entry}
    (h : ∀ entry ∈ front, entry.targets version = false) (rest : List Entry) :
    changeFirst version become (front ++ rest) =
      (changeFirst version become rest).map (front ++ ·) := by
  induction front with
  | nil => simp
  | cons entry front ih =>
    obtain ⟨hentry, hfront⟩ := List.forall_mem_cons.1 h
    rw [List.cons_append, changeFirst_of_not_targets hentry, ih hfront, Option.map_map]
    rfl

/-- Changes for two versions commute at an entry for the first of them: the other search goes past
the entry, and past whatever it becomes. -/
theorem changeFirst_comm_at (hne : version ≠ other) (hoff : KeepsOff version other become)
    (h : entry.targets version = true) (rest : List Entry) :
    (changeFirst version become (entry :: rest)).bind (changeFirst other become') =
      (changeFirst other become' (entry :: rest)).bind (changeFirst version become) := by
  have hpast : changeFirst other become' (become entry ++ rest) =
      (changeFirst other become' rest).map (become entry ++ ·) :=
    changeFirst_append (hoff entry h) rest
  rw [changeFirst_of_targets h, Option.bind_some, hpast,
    changeFirst_of_not_targets (Entry.targets_of_ne hne h)]
  cases changeFirst other become' rest with
  | none => rfl
  | some rest' => exact (changeFirst_of_targets h rest').symm

/-- Two searches that both go past an entry go on behind it. -/
theorem changeFirst_bind_behind (h : entry.targets version = false)
    (h' : entry.targets other = false) (rest : List Entry) :
    (changeFirst version become (entry :: rest)).bind (changeFirst other become') =
      ((changeFirst version become rest).bind (changeFirst other become')).map (entry :: ·) := by
  rw [changeFirst_of_not_targets h]
  cases changeFirst version become rest with
  | none => rfl
  | some rest' => exact changeFirst_of_not_targets h' rest'

/-- **Changes for two versions commute.** -/
theorem changeFirst_comm (hne : version ≠ other) (hoff : KeepsOff version other become)
    (hoff' : KeepsOff other version become') (entries : List Entry) :
    (changeFirst version become entries).bind (changeFirst other become') =
      (changeFirst other become' entries).bind (changeFirst version become) := by
  induction entries with
  | nil => rfl
  | cons entry rest ih =>
    cases h : entry.targets version with
    | true => exact changeFirst_comm_at hne hoff h rest
    | false =>
      cases h' : entry.targets other with
      | true => exact (changeFirst_comm_at hne.symm hoff' h' rest).symm
      | false => rw [changeFirst_bind_behind h h', changeFirst_bind_behind h' h, ih]

end changeFirst

/-- There is an entry to change only if one is for the version. -/
theorem any_targets_of_changeFirst {version : String} {become : Entry → List Entry}
    {entries changed : List Entry} (h : changeFirst version become entries = some changed) :
    entries.any (Entry.targets version) = true := by
  induction entries generalizing changed with
  | nil => exact absurd h (by simp [changeFirst])
  | cons entry rest ih =>
    rw [List.any_cons, Bool.or_eq_true]
    cases ht : entry.targets version with
    | true => exact .inl rfl
    | false =>
      rw [changeFirst_of_not_targets ht] at h
      obtain ⟨rest', hrest, -⟩ := Option.map_eq_some_iff.1 h
      exact .inr (ih hrest)

/-! ## Edits of the rollouts of a version -/

namespace Edit

/-- Changes the percentage of a rollout for a version, or removes it. -/
inductive Alters (version : String) : Edit → Prop
  | setPercentFor (percent : Percent) : Alters version (.setPercentFor version percent)
  | remove : Alters version (.remove version)

/-- Inserts a rollout for a version, or alters one. -/
inductive On (version : String) : Edit → Prop
  | insert (branchId : String) (percent : Percent) : On version (.insert branchId percent version)
  | altered {e : Edit} : e.Alters version → On version e

/-- What an edit on the rollouts of a version does to the entries of a mapping. -/
def act : Edit → List Entry → Option (List Entry)
  | .insert branchId percent version => fun entries =>
    some (⟨branchId, .constrained version percent⟩ :: entries)
  | .setPercentFor version percent => changeFirst version fun entry =>
    (entry.withPercent? percent).toList
  | .remove version => changeFirst version fun _ => []
  | .setPercent _ => fun _ => none
  | .finish _ => fun _ => none

/-- To alter a rollout is to change the first entry for its version into something that is no
rollout for any other. -/
theorem Alters.act_eq {e : Edit} {version : String} (he : e.Alters version) :
    ∃ become, e.act = changeFirst version become ∧
      ∀ other, version ≠ other → KeepsOff version other become := by
  cases he with
  | remove =>
    refine ⟨fun _ => [], rfl, ?_⟩
    intro other hne entry hentry made hmade
    exact absurd hmade (by simp)
  | setPercentFor percent =>
    refine ⟨fun entry => (entry.withPercent? percent).toList, rfl, ?_⟩
    intro other hne entry hentry made hmade
    -- the entry is still a rollout for its own version
    obtain ⟨changed, line, hset, -, hversion, hline, -⟩ :=
      Entry.withPercent?_of_targets hentry percent
    have hmade : made = changed := by simpa [hset] using hmade
    apply Entry.targets_of_ne hne
    rw [hmade, Entry.targets_eq_any, hline, Option.any_some, decide_eq_true_eq]
    exact hversion

/-- An inserted rollout is for its version. -/
theorem targets_inserted_self (branchId version : String) (percent : Percent) :
    (⟨branchId, .constrained version percent⟩ : Entry).targets version = true :=
  Entry.targets_iff.2 ⟨_, Node.constrained?_constrained version percent⟩

/-- An inserted rollout is for no other version. -/
theorem targets_inserted {version other : String} (hne : version ≠ other) (branchId : String)
    (percent : Percent) :
    (⟨branchId, .constrained version percent⟩ : Entry).targets other = false :=
  Entry.targets_of_ne hne (targets_inserted_self branchId version percent)

/-- Alterations for two versions commute. -/
theorem Alters.act_comm {e f : Edit} {version other : String} (he : e.Alters version)
    (hf : f.Alters other) (hne : version ≠ other) (entries : List Entry) :
    (e.act entries).bind f.act = (f.act entries).bind e.act := by
  obtain ⟨become, heq, hoff⟩ := he.act_eq
  obtain ⟨become', heq', hoff'⟩ := hf.act_eq
  rw [heq, heq']
  exact changeFirst_comm hne (hoff other hne) (hoff' version hne.symm) entries

/-- An insertion commutes with an alteration for another version. -/
theorem Alters.act_comm_insert {f : Edit} {version other : String} (hf : f.Alters other)
    (hne : version ≠ other) (branchId : String) (percent : Percent) (entries : List Entry) :
    (act (.insert branchId percent version) entries).bind f.act =
      (f.act entries).bind (act (.insert branchId percent version)) := by
  obtain ⟨become, heq, -⟩ := hf.act_eq
  show f.act (_ :: entries) = (f.act entries).bind fun entries => some (_ :: entries)
  rw [heq, changeFirst_of_not_targets (targets_inserted hne branchId percent)]
  cases changeFirst other become entries with
  | none => rfl
  | some entries' => rfl

end Edit

theorem withPercentFor?_eq_act (version : String) (percent : Percent) (entries : List Entry) :
    withPercentFor? version percent entries = (Edit.setPercentFor version percent).act entries := by
  show _ = changeFirst version _ entries
  induction entries with
  | nil => rfl
  | cons entry rest ih =>
    rw [withPercentFor?, changeFirst, ih]
    split
    · next h =>
      obtain ⟨changed, _, hset, -⟩ := Entry.withPercent?_of_targets h percent
      rw [hset]
      rfl
    · rfl

/-- Dropping the first rollout for a version leaves nothing in its place. -/
theorem eraseP_eq_act {version : String} {entries : List Entry}
    (h : entries.any (Entry.targets version) = true) :
    (Edit.remove version).act entries = some (entries.eraseP (Entry.targets version)) := by
  show changeFirst version _ entries = _
  induction entries with
  | nil => exact absurd h (by simp)
  | cons entry rest ih =>
    cases ht : entry.targets version with
    | true => rw [changeFirst_of_targets ht, List.eraseP_cons_of_pos ht]; rfl
    | false =>
      rw [List.any_cons, ht, Bool.false_or] at h
      rw [changeFirst_of_not_targets ht, ih h,
        List.eraseP_cons_of_neg (Bool.eq_false_iff.1 ht)]
      rfl

namespace Mapping

/-! ## Two edits -/

/-- An edit on the rollouts of a version acts on the entries, and needs a fallback at the end. -/
theorem edit_eq_ok_of_on {m edited : Mapping} {e : Edit} {version : String}
    (he : e.On version) :
    m.edit e = .ok edited ↔ m.endsInFallback = true ∧
      ∃ entries, e.act m.entries = some entries ∧ edited = { m with entries } := by
  cases he with
  | insert branchId percent =>
    rw [edit, insertRollout_eq_ok]
    simp [Edit.act]
  | altered he =>
    obtain ⟨become, heq, -⟩ := he.act_eq
    -- the entry that is changed is the one that the guard asks for
    have hguard : ∀ entries, e.act m.entries = some entries → m.endsInFallback = true →
        m.hasRolloutFor version = true := by
      intro entries hact hends
      rw [heq] at hact
      rw [hasRolloutFor, hends, any_targets_of_changeFirst hact]
      rfl
    cases he with
    | setPercentFor percent =>
      rw [edit, setPercentFor_eq_ok]
      simp only [withPercentFor?_eq_act]
      constructor
      · rintro ⟨hfound, hchanged⟩
        exact ⟨endsInFallback_of_hasRolloutFor hfound, hchanged⟩
      · rintro ⟨hends, entries, hact, hedited⟩
        exact ⟨hguard entries hact hends, entries, hact, hedited⟩
    | remove =>
      rw [edit, removeRollout_eq_ok]
      constructor
      · rintro ⟨hfound, rfl⟩
        rw [hasRolloutFor, Bool.and_eq_true] at hfound
        exact ⟨hfound.1, _, eraseP_eq_act hfound.2, rfl⟩
      · rintro ⟨hends, entries, hact, rfl⟩
        have hfound := hguard entries hact hends
        refine ⟨hfound, ?_⟩
        rw [hasRolloutFor, Bool.and_eq_true] at hfound
        rw [eraseP_eq_act hfound.2, Option.some.injEq] at hact
        rw [hact]

/-- Carries out one operation and then another, if both apply. -/
def editBoth (m : Mapping) (first second : Edit) : Except RolloutError Mapping := do
  let between ← m.edit first
  between.edit second

/-- Two edits on rollouts act one after the other, and the fallback has to be there before. -/
theorem editBoth_eq_ok {m edited : Mapping} {e f : Edit} {version other : String}
    (he : e.On version) (hf : f.On other) :
    m.editBoth e f = .ok edited ↔ m.endsInFallback = true ∧
      ∃ entries, (e.act m.entries).bind f.act = some entries ∧ edited = { m with entries } := by
  rw [editBoth, Outcome.bind_eq_ok]
  constructor
  · rintro ⟨between, hfirst, hsecond⟩
    obtain ⟨hends, entries, hact, rfl⟩ := (edit_eq_ok_of_on he).1 hfirst
    obtain ⟨-, entries', hact', rfl⟩ := (edit_eq_ok_of_on hf).1 hsecond
    refine ⟨hends, entries', ?_, rfl⟩
    rw [hact]
    exact hact'
  · rintro ⟨hends, entries', hboth, rfl⟩
    obtain ⟨entries, hact, hact'⟩ := Option.bind_eq_some_iff.1 hboth
    have hfirst : m.edit e = .ok { m with entries } :=
      (edit_eq_ok_of_on he).2 ⟨hends, entries, hact, rfl⟩
    refine ⟨_, hfirst, (edit_eq_ok_of_on hf).2 ⟨?_, entries', hact', rfl⟩⟩
    exact endsInFallback_of_edit hfirst

/-- Edits on rollouts that act alike in both orders lead to the same mapping in both. -/
theorem editBoth_comm {m : Mapping} {e f : Edit} {version other : String} (he : e.On version)
    (hf : f.On other) (hact : (e.act m.entries).bind f.act = (f.act m.entries).bind e.act)
    (edited : Mapping) : m.editBoth e f = .ok edited ↔ m.editBoth f e = .ok edited := by
  rw [editBoth_eq_ok he hf, editBoth_eq_ok hf he, hact]

/-! ## Two insertions -/

/-- What is reported after two insertions: the two new lines, the later one first, in front of the
old ones. -/
theorem rolloutInfo_insertedBoth {m edited : Mapping} {branchId branchId' version other : String}
    {percent percent' : Percent}
    (h : m.editBoth (.insert branchId percent version) (.insert branchId' percent' other) =
      .ok edited) :
    ∃ fallback, m.fallback? = some fallback ∧ edited.rolloutInfo =
      .ok (.constrained ((⟨branchId', other, percent'⟩ :: ⟨branchId, version, percent⟩ ::
        m.ledger).map (·.record fallback.branchId))) := by
  obtain ⟨between, hfirst, hsecond⟩ := Outcome.bind_eq_ok.1 h
  have hends := endsInFallback_of_edit hsecond
  obtain ⟨-, rfl⟩ := insertRollout_eq_ok.1 hfirst
  obtain ⟨-, rfl⟩ := insertRollout_eq_ok.1 hsecond
  have hledger := (ledger_inserted _ branchId' percent' other).trans
    (congrArg _ (ledger_inserted m branchId percent version))
  obtain ⟨fallback, hfallback, hinfo⟩ :=
    rolloutInfo_of_ledger hends (by rw [hledger]; exact List.cons_ne_nil _ _)
  -- the search for the fallback goes past both new entries
  refine ⟨fallback, hfallback, ?_⟩
  rw [hinfo, hledger]

/-- Of two items of which at most one is looked for, it does not matter which one stands first. -/
theorem find?_swap {α : Type} {p : α → Bool} {a b : α} (h : p a = true → p b = false)
    (rest : List α) : (a :: b :: rest).find? p = (b :: a :: rest).find? p := by
  cases ha : p a with
  | true => simp [ha, h ha]
  | false => simp [List.find?_cons, ha]

/-- The order of two insertions for different versions shows in no record of a version. -/
theorem recordFor?_swap {line line' : LedgerLine}
    (hne : line.runtimeVersion ≠ line'.runtimeVersion) (lines : List LedgerLine)
    (defaultBranchId asked : String) :
    (RolloutInfo.constrained ((line :: line' :: lines).map (·.record defaultBranchId))).recordFor?
        asked =
      (RolloutInfo.constrained ((line' :: line :: lines).map (·.record defaultBranchId))).recordFor?
        asked := by
  rw [RolloutInfo.recordFor?, RolloutInfo.recordFor?, List.map_cons, List.map_cons, List.map_cons,
    List.map_cons]
  apply find?_swap
  intro hasked
  rw [decide_eq_true_eq] at hasked
  rw [decide_eq_false_iff_not]
  intro hasked'
  apply hne
  show (line.record defaultBranchId).runtimeVersion = (line'.record defaultBranchId).runtimeVersion
  rw [hasked, hasked']

/-- A constrained rollout concerns the versions that it has a record for. -/
theorem targets_of_rolloutInfo {m : Mapping} {records : List ConstrainedRecord}
    (h : m.rolloutInfo = .ok (.constrained records)) (version : String) :
    m.targets version = ((RolloutInfo.constrained records).recordFor? version).isSome := by
  rw [targets, h]

/-! ## Order does not matter -/

/-- **Rollouts of different versions are independent.** Two alterations for different versions can
be exchanged, and so can an insertion and an alteration: one order succeeds with a mapping exactly
when the other does with the same one. Two insertions succeed in both orders or in neither, and
then the two mappings report the same of every version. -/
theorem edits_commute (m : Mapping) {version other : String} (hne : version ≠ other) :
    (∀ e f : Edit, e.Alters version → f.Alters other → ∀ edited,
      m.editBoth e f = .ok edited ↔ m.editBoth f e = .ok edited) ∧
    (∀ branchId percent, ∀ f : Edit, f.Alters other → ∀ edited,
      m.editBoth (.insert branchId percent version) f = .ok edited ↔
        m.editBoth f (.insert branchId percent version) = .ok edited) ∧
    ∀ branchId percent branchId' percent',
      ((∃ edited, m.editBoth (.insert branchId percent version)
          (.insert branchId' percent' other) = .ok edited) ↔
        ∃ edited, m.editBoth (.insert branchId' percent' other)
          (.insert branchId percent version) = .ok edited) ∧
      ∀ edited edited',
        m.editBoth (.insert branchId percent version) (.insert branchId' percent' other) =
          .ok edited →
        m.editBoth (.insert branchId' percent' other) (.insert branchId percent version) =
          .ok edited' →
        (∀ asked, edited.targets asked = edited'.targets asked) ∧
          ∃ info info', edited.rolloutInfo = .ok info ∧ edited'.rolloutInfo = .ok info' ∧
            ∀ asked, info.recordFor? asked = info'.recordFor? asked := by
  refine ⟨?_, ?_, ?_⟩
  · intro e f he hf edited
    apply editBoth_comm (.altered he) (.altered hf)
    exact he.act_comm hf hne m.entries
  · intro branchId percent f hf edited
    apply editBoth_comm (.insert branchId percent) (.altered hf)
    exact hf.act_comm_insert hne branchId percent m.entries
  · intro branchId percent branchId' percent'
    have hfirst : (Edit.insert branchId percent version).On version := .insert branchId percent
    have hsecond : (Edit.insert branchId' percent' other).On other := .insert branchId' percent'
    constructor
    · -- either order needs the fallback and nothing else
      simp only [editBoth_eq_ok hfirst hsecond, editBoth_eq_ok hsecond hfirst]
      simp [Edit.act]
    · intro edited edited' h h'
      obtain ⟨fallback, hfallback, hinfo⟩ := rolloutInfo_insertedBoth h
      obtain ⟨fallback', hfallback', hinfo'⟩ := rolloutInfo_insertedBoth h'
      obtain rfl : fallback = fallback' := Option.some.inj (hfallback.symm.trans hfallback')
      let line : LedgerLine := ⟨branchId, version, percent⟩
      let line' : LedgerLine := ⟨branchId', other, percent'⟩
      have hlines : line'.runtimeVersion ≠ line.runtimeVersion := hne.symm
      have hrecords := recordFor?_swap hlines m.ledger fallback.branchId
      refine ⟨?_, _, _, hinfo, hinfo', hrecords⟩
      intro asked
      rw [targets_of_rolloutInfo hinfo, targets_of_rolloutInfo hinfo', hrecords]

/-- In a mapping that holds one version twice, a share that is no fraction and a fallback in the
middle, a change for one version and the removal of the first rollout for another come to the same
in both orders. -/
theorem edits_commute_handwritten :
    "1.0" ≠ "2.0" ∧
      ∃ start edited, handwritten.insertRollout "B6" .full "2.0" = .ok start ∧
        start.editBoth (.remove "1.0") (.setPercentFor "2.0" .zero) = .ok edited ∧
        start.editBoth (.setPercentFor "2.0" .zero) (.remove "1.0") = .ok edited := by
  have hne : "1.0" ≠ "2.0" := by decide
  obtain ⟨edited, hedited⟩ := Outcome.exists_of_isOk
    (x := { handwritten with entries := ⟨"B6", .constrained "2.0" .full⟩ :: handwritten.entries
      : Mapping }.editBoth (.remove "1.0") (.setPercentFor "2.0" .zero)) (by decide +kernel)
  refine ⟨hne, _, edited, insertRollout_eq (by decide) "B6" .full "2.0", hedited, ?_⟩
  apply ((edits_commute _ hne).1 _ _ .remove (.setPercentFor .zero) edited).1
  exact hedited

end Mapping

end StagedRollout
