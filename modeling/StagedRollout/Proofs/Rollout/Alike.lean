/-
# StagedRollout.Proofs.Rollout.Alike -- equal mappings are edited alike

Equal mappings may differ in the sign of a zero. Whatever recognition looks at is blind to it: zero
is a fraction with either sign, and a runtime version is a string. So equal mappings are recognised
alike, an edit reaches the same places in both, and what it leaves of them is equal again
(`Mapping.edit_of_same`). In other words equality is a bisimulation for edits.
-/
import StagedRollout.Proofs.Mapping.Equality
import StagedRollout.Proofs.Rollout.Admission
import StagedRollout.Proofs.Rollout.Storable

namespace StagedRollout

/- The stored fraction is a quotient of large numbers, which nothing here looks into. -/
attribute [local irreducible] Percent.fraction Percent.ofFraction

/-! ## Fractions and predicates -/

/-- Equal numbers are fractions alike: only the sign of a zero may differ. -/
theorem Binary64.isFraction_of_same {x y : Binary64} (h : x.same y = true) :
    x.isFraction = y.isFraction := by
  obtain rfl | ⟨negative, negative', rfl, rfl⟩ := eq_or_zero_of_same h
  · rfl
  · -- zero is a fraction, whatever its sign
    have hzero : ∀ sign, (finite sign .zero).isFraction = true := fun sign =>
      (isFraction_iff _).2 ⟨sign, .zero, rfl, by cases sign <;> simp [Magnitude.zero]⟩
    rw [hzero, hzero]

/-- The fraction of a percentage is equal to itself, as it is a number. -/
theorem Percent.same_fraction (percent : Percent) :
    percent.fraction.same percent.fraction = true :=
  Binary64.same_self (Binary64.isFinite_of_isFraction percent.isFraction_fraction)

theorem Operand.isFraction_of_same {a b : Operand} (h : a.same b = true) :
    a.isFraction = b.isFraction := by
  cases a <;> cases b <;>
    first
    | exact Binary64.isFraction_of_same h
    | rfl
    | exact absurd h Bool.false_ne_true

theorem Operand.text?_of_same {a b : Operand} (h : a.same b = true) : a.text? = b.text? := by
  cases a <;> cases b <;>
    first
    | exact congrArg some (of_decide_eq_true h)
    | rfl
    | exact absurd h Bool.false_ne_true

namespace Predicate

/-- Recognition of a share looks at key, operator and range, none of which the sign of a zero
changes. -/
theorem isShare_of_same {p q : Predicate} (h : p.same q = true) : p.isShare = q.isShare := by
  obtain ⟨hoperand, hkey, hoperator⟩ := same_iff.1 h
  rw [isShare, isShare, compares, compares, hkey, hoperator, Operand.isFraction_of_same hoperand]

/-- A runtime version is a string, and equal predicates have the same strings. -/
theorem runtimeVersion?_of_same {p q : Predicate} (h : p.same q = true) :
    p.runtimeVersion? = q.runtimeVersion? := by
  obtain ⟨hoperand, hkey, hoperator⟩ := same_iff.1 h
  rw [runtimeVersion?, runtimeVersion?, compares, compares, hkey, hoperator,
    Operand.text?_of_same hoperand]

/-- Setting the share makes up for the difference there was. -/
theorem same_setShare {p q : Predicate} (h : p.same q = true) (percent : Percent) :
    (p.setShare percent).same (q.setShare percent) = true := by
  obtain ⟨-, hkey, hoperator⟩ := same_iff.1 h
  exact same_iff.2 ⟨percent.same_fraction, hkey, hoperator⟩

end Predicate

/-! ## Nodes -/

namespace Node

theorem isShare_of_same {a b : Node} (h : a.same b = true) : a.isShare = b.isShare := by
  cases a <;> cases b <;>
    first
    | exact Predicate.isShare_of_same h
    | rfl
    | exact absurd h (by simp [same])

/-- What is equal to a predicate is a predicate. -/
theorem same_predicate {p : Predicate} {node : Node} (h : (predicate p).same node = true) :
    ∃ q, node = .predicate q ∧ p.same q = true := by
  cases node with
  | predicate q => exact ⟨q, rfl, h⟩
  | _ => exact absurd h (by simp [same])

/-- What is equal to an `and` is one, over equal nodes. -/
theorem same_all {nodes : List Node} {node : Node} (h : (all nodes).same node = true) :
    ∃ nodes', node = .all nodes' ∧ sameNodes nodes nodes' = true := by
  cases node with
  | all nodes' => exact ⟨nodes', rfl, h⟩
  | _ => exact absurd h (by simp [same])

theorem sameNodes_cons {node : Node} {rest nodes : List Node}
    (h : sameNodes (node :: rest) nodes = true) :
    ∃ node' rest', nodes = node' :: rest' ∧ node.same node' = true ∧
      sameNodes rest rest' = true := by
  cases nodes with
  | nil => exact absurd h (by simp [sameNodes])
  | cons node' rest' =>
    rw [sameNodes, Bool.and_eq_true] at h
    exact ⟨node', rest', rfl, h.1, h.2⟩

/-- A node that is equal to the `and` of two predicates is one, too. -/
theorem same_pair {p q : Predicate} {node : Node}
    (h : (all [.predicate p, .predicate q]).same node = true) :
    ∃ p' q', node = .all [.predicate p', .predicate q'] ∧ p.same p' = true ∧ q.same q' = true := by
  obtain ⟨nodes, rfl, hnodes⟩ := same_all h
  obtain ⟨first, rest, rfl, hfirst, hrest⟩ := sameNodes_cons hnodes
  obtain ⟨second, none, rfl, hsecond, hnone⟩ := sameNodes_cons hrest
  obtain ⟨p', rfl, hp⟩ := same_predicate hfirst
  obtain ⟨q', rfl, hq⟩ := same_predicate hsecond
  cases none with
  | nil => exact ⟨p', q', rfl, hp, hq⟩
  | cons _ _ => exact absurd hnone (by simp [sameNodes])

/-- A node that is equal to a constrained rollout is one for the same version. -/
theorem constrained?_of_same {a b : Node} (h : a.same b = true) {version : String}
    {share : Predicate} (ha : a.constrained? = some (version, share)) :
    ∃ share', b.constrained? = some (version, share') ∧ share.same share' = true := by
  obtain ⟨scope, hversion, hshare, rfl | rfl⟩ := constrained?_eq_some.1 ha
  · obtain ⟨scope', share', rfl, hscope, hsame⟩ := same_pair h
    rw [Predicate.runtimeVersion?_of_same hscope] at hversion
    rw [Predicate.isShare_of_same hsame] at hshare
    exact ⟨share', constrained?_eq_some.2 ⟨scope', hversion, hshare, .inl rfl⟩, hsame⟩
  · obtain ⟨share', scope', rfl, hsame, hscope⟩ := same_pair h
    rw [Predicate.runtimeVersion?_of_same hscope] at hversion
    rw [Predicate.isShare_of_same hsame] at hshare
    exact ⟨share', constrained?_eq_some.2 ⟨scope', hversion, hshare, .inr rfl⟩, hsame⟩

/-- The search for a share stops at the same place among equal nodes. -/
theorem withPercentAmong?_of_same {percent : Percent} : ∀ {as bs changed : List Node},
    sameNodes as bs = true → withPercentAmong? percent as = some changed →
    ∃ changed', withPercentAmong? percent bs = some changed' ∧ sameNodes changed changed' = true
  | [], _, _, _, h => absurd h (by simp [withPercentAmong?])
  | a :: as, bs, changed, hsame, h => by
      obtain ⟨b, bs, rfl, hab, hrest⟩ := sameNodes_cons hsame
      cases hshare : a.isShare with
      | true =>
        obtain ⟨p, rfl⟩ : ∃ p, a = .predicate p := by
          cases a with
          | predicate p => exact ⟨p, rfl⟩
          | _ => exact absurd hshare Bool.false_ne_true
        obtain ⟨q, rfl, hpq⟩ := same_predicate hab
        rw [withPercentAmong?_of_isShare hshare] at h
        obtain rfl := Option.some.inj h
        refine ⟨_, withPercentAmong?_of_isShare ?_ percent bs, ?_⟩
        · exact (Predicate.isShare_of_same hpq).symm.trans hshare
        · rw [sameNodes, Bool.and_eq_true]
          exact ⟨Predicate.same_setShare hpq percent, hrest⟩
      | false =>
        rw [withPercentAmong?_of_not_isShare hshare] at h
        obtain ⟨changed, hchanged, rfl⟩ := Option.map_eq_some_iff.1 h
        obtain ⟨changed', hchanged', hsame'⟩ := withPercentAmong?_of_same hrest hchanged
        have hshare' := (isShare_of_same hab).symm.trans hshare
        refine ⟨b :: changed', ?_, ?_⟩
        · rw [withPercentAmong?_of_not_isShare hshare', hchanged', Option.map_some]
        · rw [sameNodes, Bool.and_eq_true]
          exact ⟨hab, hsame'⟩

/-- A percentage is set in the same place of equal nodes, and leaves equal nodes. -/
theorem withPercent?_of_same {a b changed : Node} {percent : Percent} (hsame : a.same b = true)
    (h : a.withPercent? percent = some changed) :
    ∃ changed', b.withPercent? percent = some changed' ∧ changed.same changed' = true := by
  cases a with
  | predicate p =>
    obtain ⟨q, rfl, hpq⟩ := same_predicate hsame
    rw [withPercent?, Option.ite_none_right_eq_some, Option.some.injEq] at h
    obtain ⟨hshare, rfl⟩ := h
    refine ⟨.predicate (q.setShare percent), ?_, Predicate.same_setShare hpq percent⟩
    rw [withPercent?, if_pos ((Predicate.isShare_of_same hpq).symm.trans hshare)]
  | all nodes =>
    obtain ⟨nodes', rfl, hnodes⟩ := same_all hsame
    obtain ⟨changed, hset, rfl⟩ := Option.map_eq_some_iff.1 h
    obtain ⟨changed', hset', hsame'⟩ := withPercentAmong?_of_same hnodes hset
    refine ⟨.all changed', ?_, hsame'⟩
    rw [withPercent?, hset']
    rfl
  | _ => exact absurd h (by simp [withPercent?])

/-- What inserting puts in front is equal to itself: its share is a number. -/
theorem same_constrained (version : String) (percent : Percent) :
    (constrained version percent).same (constrained version percent) = true := by
  have hshare : (Predicate.share percent).same (.share percent) = true :=
    Predicate.same_iff.2 ⟨percent.same_fraction, rfl, rfl⟩
  have hversion : (Predicate.version version).same (.version version) = true :=
    Predicate.same_iff.2 ⟨decide_eq_true rfl, rfl, rfl⟩
  simp only [constrained, Node.share, same, sameNodes, hshare, hversion, Bool.and_true]

end Node

/-! ## Entries -/

namespace Entry

variable {a b : Entry} {as bs : List Entry}

/-- Equal entries are rollouts for the same versions. -/
theorem targets_of_same (h : a.Same b) (version : String) :
    a.targets version = b.targets version := by
  rw [Bool.eq_iff_iff, targets_iff, targets_iff]
  constructor
  · rintro ⟨share, ha⟩
    obtain ⟨share', hb, -⟩ := Node.constrained?_of_same h.logic ha
    exact ⟨share', hb⟩
  · rintro ⟨share, hb⟩
    obtain ⟨share', ha, -⟩ := Node.constrained?_of_same h.symm.logic hb
    exact ⟨share', ha⟩

theorem withPercent?_of_same (h : a.Same b) {changed : Entry} {percent : Percent}
    (hset : a.withPercent? percent = some changed) :
    ∃ changed', b.withPercent? percent = some changed' ∧ changed.Same changed' := by
  obtain ⟨logic, hlogic, rfl⟩ := Option.map_eq_some_iff.1 hset
  obtain ⟨logic', hlogic', hsame⟩ := Node.withPercent?_of_same h.logic hlogic
  refine ⟨{ b with logic := logic' }, ?_, ⟨h.branchId, hsame⟩⟩
  rw [withPercent?, hlogic']
  rfl

theorem any_targets_of_same (h : List.Forall₂ Same as bs) (version : String) :
    as.any (targets version) = bs.any (targets version) := by
  induction h with
  | nil => rfl
  | cons hfirst _ ih => rw [List.any_cons, List.any_cons, targets_of_same hfirst, ih]

/-- The first entry for a version stands in the same place, and equal entries are left without
it. -/
theorem eraseP_targets_of_same (h : List.Forall₂ Same as bs) (version : String) :
    List.Forall₂ Same (as.eraseP (targets version)) (bs.eraseP (targets version)) := by
  induction h with
  | nil => exact .nil
  | @cons a b as bs hfirst hrest ih =>
    rw [List.eraseP_cons, List.eraseP_cons, targets_of_same hfirst]
    cases b.targets version with
    | true => exact hrest
    | false => exact .cons hfirst ih

end Entry

/-- The first entry for a version stands in the same place, and setting its percentage leaves equal
entries. -/
theorem withPercentFor?_of_same {as bs changed : List Entry} (hsame : List.Forall₂ Entry.Same as bs)
    {version : String} {percent : Percent} (h : withPercentFor? version percent as = some changed) :
    ∃ changed', withPercentFor? version percent bs = some changed' ∧
      List.Forall₂ Entry.Same changed changed' := by
  induction hsame generalizing changed with
  | nil => exact absurd h (by simp [withPercentFor?])
  | @cons a b as bs hfirst hrest ih =>
    have htargets := Entry.targets_of_same hfirst version
    rw [withPercentFor?] at h ⊢
    cases hb : b.targets version with
    | true =>
      rw [htargets, hb] at h
      obtain ⟨first, hset, rfl⟩ := Option.map_eq_some_iff.1 h
      obtain ⟨first', hset', hsame'⟩ := Entry.withPercent?_of_same hfirst hset
      exact ⟨first' :: bs, by rw [if_pos rfl, hset']; rfl, .cons hsame' hrest⟩
    | false =>
      rw [htargets, hb] at h
      obtain ⟨rest, hset, rfl⟩ := Option.map_eq_some_iff.1 h
      obtain ⟨rest', hset', hsame'⟩ := ih hset
      exact ⟨b :: rest', by rw [if_neg Bool.false_ne_true, hset']; rfl, .cons hfirst hsame'⟩

/-! ## Mappings -/

namespace Mapping

/-- Equal mappings hold rollouts for the same versions. -/
theorem hasRolloutFor_of_same {a b : Mapping} (h : a.same b = true) (version : String) :
    a.hasRolloutFor version = b.hasRolloutFor version := by
  obtain ⟨-, hentries⟩ := same_iff.1 h
  rw [hasRolloutFor, hasRolloutFor, endsInFallback_of_same h, Entry.any_targets_of_same hentries]

/-- A mapping that is equal to an unconstrained rollout is one, of equal parts. -/
theorem unconstrained?_of_same {a b : Mapping} (h : a.same b = true) {first fallback : Entry}
    {share : Predicate} (ha : a.unconstrained? = some (first, share, fallback)) :
    ∃ first' share' fallback', b.unconstrained? = some (first', share', fallback') ∧
      first.Same first' ∧ share.same share' = true ∧ fallback.Same fallback' := by
  obtain ⟨hentries, hlogic, hshare, hlast⟩ := unconstrained?_eq_some.1 ha
  obtain ⟨first', fallback', hentries', hfirst, hfallback⟩ :
      ∃ first' fallback', b.entries = [first', fallback'] ∧ first.Same first' ∧
        fallback.Same fallback' := by
    obtain ⟨-, hsame⟩ := same_iff.1 h
    rw [hentries] at hsame
    generalize b.entries = entries at hsame
    obtain _ | ⟨hfirst, _ | ⟨hfallback, _ | _⟩⟩ := hsame
    exact ⟨_, _, rfl, hfirst, hfallback⟩
  have hnode := hfirst.logic
  rw [hlogic] at hnode
  obtain ⟨share', hlogic', hsame⟩ := Node.same_predicate hnode
  refine ⟨first', share', fallback', unconstrained?_eq_some.2 ⟨hentries', hlogic', ?_, ?_⟩,
    hfirst, hsame, hfallback⟩
  · exact (Predicate.isShare_of_same hsame).symm.trans hshare
  · exact (isAlwaysTrue_of_same hfallback.logic).symm.trans hlast

/-- The standard mapping of a branch is equal to itself. -/
theorem same_standard (branchId : String) :
    (standard branchId).same (standard branchId) = true :=
  same_iff.2 ⟨rfl, .cons ⟨rfl, rfl⟩ .nil⟩

/-- **Equal mappings are edited alike.** What an edit makes of one it makes of the other. -/
theorem edit_of_same {a b edited : Mapping} (hsame : a.same b = true) {e : Edit}
    (h : a.edit e = .ok edited) : ∃ edited', b.edit e = .ok edited' ∧ edited.same edited' = true := by
  obtain ⟨hversion, hentries⟩ := same_iff.1 hsame
  cases e with
  | insert branchId percent version =>
    obtain ⟨hends, rfl⟩ := insertRollout_eq_ok.1 h
    rw [endsInFallback_of_same hsame] at hends
    refine ⟨_, insertRollout_eq_ok.2 ⟨hends, rfl⟩, same_iff.2 ⟨hversion, .cons ⟨rfl, ?_⟩ hentries⟩⟩
    exact Node.same_constrained version percent
  | setPercentFor version percent =>
    obtain ⟨hfound, entries, hset, rfl⟩ := setPercentFor_eq_ok.1 h
    rw [hasRolloutFor_of_same hsame] at hfound
    obtain ⟨entries', hset', hentries'⟩ := withPercentFor?_of_same hentries hset
    exact ⟨_, setPercentFor_eq_ok.2 ⟨hfound, entries', hset', rfl⟩,
      same_iff.2 ⟨hversion, hentries'⟩⟩
  | setPercent percent =>
    obtain ⟨first, share, fallback, hu, rfl⟩ := unconstrained?_setPercent h
    obtain ⟨first', share', fallback', hu', hfirst, hshare, hfallback⟩ :=
      unconstrained?_of_same hsame hu
    refine ⟨_, setPercent_of_unconstrained? hu' percent, same_iff.2 ⟨hversion, ?_⟩⟩
    have hset : (Node.predicate (share.setShare percent)).same
        (.predicate (share'.setShare percent)) = true := Predicate.same_setShare hshare percent
    exact .cons ⟨hfirst.branchId, hset⟩ (.cons hfallback .nil)
  | remove version =>
    obtain ⟨hfound, rfl⟩ := removeRollout_eq_ok.1 h
    rw [hasRolloutFor_of_same hsame] at hfound
    refine ⟨_, removeRollout_eq_ok.2 ⟨hfound, rfl⟩, same_iff.2 ⟨hversion, ?_⟩⟩
    exact Entry.eraseP_targets_of_same hentries version
  | finish outcome =>
    have hadmits : a.isUnconstrained = true := (gated_edit a _).exists_ok_iff.1 ⟨edited, h⟩
    obtain ⟨⟨first, share, fallback⟩, hu⟩ := isUnconstrained_iff.1 hadmits
    obtain ⟨first', share', fallback', hu', hfirst, -, hfallback⟩ := unconstrained?_of_same hsame hu
    obtain rfl := Except.ok.inj (h.symm.trans (endRollout_of_unconstrained? hu outcome))
    refine ⟨_, endRollout_of_unconstrained? hu' outcome, ?_⟩
    rw [hfirst.branchId, hfallback.branchId]
    exact same_standard _

end Mapping

end StagedRollout
