/-
# StagedRollout.Proofs.Rollout.ReadAfterWrite -- reading and writing find the same share

A percentage is read from one of two predicates, of which the other has to fix the version. It is
written by another search, to the first share predicate inside any `and`, or to a share predicate
that stands alone. Where something can be read, the two searches `Meet`: there is one share in the
node, it is the one that is read and the one that is written, and after writing it is the one that
is read again (`Node.meets_of_constrained?`). In any node whatsoever writing turns nothing into a
rollout that was none (`Node.constrained?_of_withPercent?`).

So an edit of a percentage that has passed its first test cannot fail any more
(`writing_meets_reading`).
-/
import StagedRollout.Proofs.Rollout.Edited

namespace StagedRollout

/- The stored fraction is a quotient of large numbers, which nothing here looks into. -/
attribute [local irreducible] Percent.fraction Percent.ofFraction

namespace Node

/-! ## The share that is written -/

/-- The share predicate that a node is. -/
def share? : Node → Option Predicate
  | .predicate p => if p.isShare then some p else none
  | _ => none

/-- The share predicate to which a percentage is written. -/
def writtenShare? : Node → Option Predicate
  | .all nodes => nodes.findSome? share?
  | node => node.share?

theorem share?_eq_some {node : Node} {share : Predicate} :
    node.share? = some share ↔ node = .predicate share ∧ share.isShare = true := by
  cases node with
  | predicate p =>
    rw [share?, Option.ite_none_right_eq_some, Option.some.injEq, predicate.injEq]
    constructor
    · rintro ⟨hshare, rfl⟩
      exact ⟨rfl, hshare⟩
    · rintro ⟨rfl, hshare⟩
      exact ⟨hshare, rfl⟩
  | _ => simp [share?]

theorem share?_eq_none {node : Node} : node.share? = none ↔ node.isShare = false := by
  cases node with
  | predicate p => simp [share?, isShare]
  | _ => simp [share?, isShare]

/-- It is the node itself, or the first share predicate directly inside an `and`. -/
theorem writtenShare?_eq_some {node : Node} {share : Predicate} :
    node.writtenShare? = some share ↔
      (node = .predicate share ∧ share.isShare = true) ∨
      ∃ front behind, node = .all (front ++ .predicate share :: behind) ∧
        (∀ other ∈ front, other.isShare = false) ∧ share.isShare = true := by
  cases node with
  | all nodes =>
    simp only [writtenShare?, List.findSome?_eq_some_iff, share?_eq_some, share?_eq_none,
      reduceCtorEq, false_and, false_or, all.injEq]
    constructor
    · rintro ⟨front, _, behind, hnodes, ⟨rfl, hshare⟩, hfront⟩
      exact ⟨front, behind, hnodes, hfront, hshare⟩
    · rintro ⟨front, behind, hnodes, hfront, hshare⟩
      exact ⟨front, _, behind, hnodes, ⟨rfl, hshare⟩, hfront⟩
  | predicate p => simp [writtenShare?, share?_eq_some]
  | _ => simp [writtenShare?, share?]

/-- Writing changes the share that is found, and fails only if none is found. -/
theorem withPercent?_isSome (node : Node) (percent : Percent) :
    (node.withPercent? percent).isSome = node.writtenShare?.isSome := by
  rw [Bool.eq_iff_iff, Option.isSome_iff_exists, Option.isSome_iff_exists]
  constructor
  · rintro ⟨changed, hchanged⟩
    obtain ⟨share, hnode, hshare, -⟩ | ⟨front, share, behind, hnode, hfront, hshare, -⟩ :=
      withPercent?_eq_some.1 hchanged
    · exact ⟨share, writtenShare?_eq_some.2 (.inl ⟨hnode, hshare⟩)⟩
    · exact ⟨share, writtenShare?_eq_some.2 (.inr ⟨front, behind, hnode, hfront, hshare⟩)⟩
  · rintro ⟨share, hfound⟩
    obtain ⟨hnode, hshare⟩ | ⟨front, behind, hnode, hfront, hshare⟩ :=
      writtenShare?_eq_some.1 hfound
    · exact ⟨_, withPercent?_eq_some.2 (.inl ⟨share, hnode, hshare, rfl⟩)⟩
    · exact ⟨_, withPercent?_eq_some.2 (.inr ⟨front, share, behind, hnode, hfront, hshare, rfl⟩)⟩

/-! ## Reading after writing -/

/-- A share predicate fixes no version, whatever its share is set to. -/
theorem setShare_ne_scope {share scope : Predicate} {percent : Percent} {version : String}
    (hshare : share.isShare = true) (hscope : scope.runtimeVersion? = some version) :
    share.setShare percent ≠ scope := by
  rintro rfl
  rw [Predicate.runtimeVersion?_of_isShare (Predicate.isShare_setShare hshare percent)] at hscope
  exact absurd hscope (by simp)

/-- What stands anywhere in a list of two is its first or its second. -/
theorem append_cons_eq_pair {α : Type} {front behind : List α} {x a b : α} :
    front ++ x :: behind = [a, b] ↔
      front = [] ∧ x = a ∧ behind = [b] ∨ front = [a] ∧ x = b ∧ behind = [] := by
  obtain _ | ⟨first, _ | ⟨second, rest⟩⟩ := front <;> simp

/-- A node in which writing leaves a constrained rollout was one before, for the same version. -/
theorem constrained?_of_written {node changed : Node} {percent : Percent} {version : String}
    {found : Predicate} (h : node.withPercent? percent = some changed)
    (hc : changed.constrained? = some (version, found)) :
    ∃ share, node.constrained? = some (version, share) := by
  obtain ⟨scope, hversion, -, hpair⟩ := constrained?_eq_some.1 hc
  obtain ⟨share, rfl, -, rfl⟩ | ⟨front, share, behind, rfl, -, hshare, rfl⟩ :=
    withPercent?_eq_some.1 h
  · rcases hpair with hpair | hpair <;> exact absurd hpair (by simp)
  -- the predicate that was written is one of the two, and not the one that fixes the version
  · rcases hpair with hpair | hpair <;>
      obtain ⟨rfl, hwritten, rfl⟩ | ⟨rfl, hwritten, rfl⟩ := append_cons_eq_pair.1 (all.inj hpair)
    · exact absurd (predicate.inj hwritten) (setShare_ne_scope hshare hversion)
    · exact ⟨share, constrained?_eq_some.2 ⟨scope, hversion, hshare, .inl rfl⟩⟩
    · exact ⟨share, constrained?_eq_some.2 ⟨scope, hversion, hshare, .inr rfl⟩⟩
    · exact absurd (predicate.inj hwritten) (setShare_ne_scope hshare hversion)

/-- **What is read after writing**, in any node: what was read before, with the share set. -/
theorem constrained?_of_withPercent? {node changed : Node} {percent : Percent}
    (h : node.withPercent? percent = some changed) :
    changed.constrained? =
      node.constrained?.map fun (version, share) => (version, share.setShare percent) := by
  cases hc : node.constrained? with
  | some found =>
    obtain ⟨version, share⟩ := found
    obtain ⟨other, hother, hread⟩ := withPercent?_of_constrained hc percent
    obtain rfl := Option.some.inj (h.symm.trans hother)
    exact hread
  | none =>
    rw [Option.map_none, Option.eq_none_iff_forall_not_mem]
    rintro ⟨version, found⟩ hread
    obtain ⟨share, hshare⟩ := constrained?_of_written h hread
    rw [hc] at hshare
    exact absurd hshare (by simp)

/-! ## The one share of a node -/

/-- Reading and writing meet in one place of a node: it holds the only share of the node, which is
what is read and what is found for writing; writing changes this place and no other; and what is
read afterwards stands there. -/
structure Meet (node : Node) (version : String) (share : Predicate) (front behind : List Node) :
    Prop where
  place : node = .all (front ++ .predicate share :: behind)
  alone : (front ++ .predicate share :: behind).countP isShare = 1
  found : node.writtenShare? = some share
  write : ∀ percent, node.withPercent? percent =
    some (.all (front ++ .predicate (share.setShare percent) :: behind))
  read : ∀ percent, (all (front ++ .predicate (share.setShare percent) :: behind)).constrained? =
    some (version, share.setShare percent)

/-- **Where something can be read, reading and writing meet.** -/
theorem meets_of_constrained? {node : Node} {version : String} {share : Predicate}
    (h : node.constrained? = some (version, share)) :
    ∃ front behind, node.Meet version share front behind := by
  obtain ⟨front, behind, hnode, hfront, hbehind⟩ := exists_split_of_constrained? h
  obtain ⟨_, -, hshare, -⟩ := constrained?_eq_some.1 h
  have hwrite : ∀ percent, node.withPercent? percent =
      some (.all (front ++ .predicate (share.setShare percent) :: behind)) := fun percent =>
    withPercent?_eq_some.2 (.inr ⟨front, share, behind, hnode, hfront, hshare, rfl⟩)
  refine ⟨front, behind, hnode, ?_, ?_, hwrite, fun percent => ?_⟩
  · have hnone : ∀ nodes : List Node, (∀ other ∈ nodes, other.isShare = false) →
        nodes.countP isShare = 0 := fun nodes hnodes =>
      List.countP_eq_zero.2 fun other hother => Bool.eq_false_iff.1 (hnodes other hother)
    have hone : (predicate share).isShare = true := hshare
    rw [List.countP_append, List.countP_cons_of_pos hone, hnone front hfront, hnone behind hbehind]
  · exact writtenShare?_eq_some.2 (.inr ⟨front, behind, hnode, hfront, hshare⟩)
  · rw [constrained?_of_withPercent? (hwrite percent), h]
    rfl

/-- A share predicate that stands alone is found and written itself, and stays one. -/
theorem withPercent?_of_isShare {share : Predicate} (h : share.isShare = true) (percent : Percent) :
    (predicate share).writtenShare? = some share ∧
      (predicate share).withPercent? percent = some (.predicate (share.setShare percent)) ∧
      (share.setShare percent).isShare = true :=
  ⟨if_pos h, if_pos h, Predicate.isShare_setShare h percent⟩

end Node

/-! ## Edits that have passed their first test -/

namespace Mapping

/-- A mapping that holds a rollout for a version has an entry for it, and the share of this entry can
be set. -/
theorem setPercentFor_of_hasRolloutFor {m : Mapping} {version : String}
    (h : m.hasRolloutFor version = true) (percent : Percent) :
    ∃ front entry behind changed, m.entries = front ++ entry :: behind ∧
      m.entries.find? (Entry.targets version) = some entry ∧
      entry.withPercent? percent = some changed ∧
      m.setPercentFor version percent = .ok { m with entries := front ++ changed :: behind } := by
  have hany := h
  rw [hasRolloutFor, Bool.and_eq_true] at hany
  obtain ⟨entries, hset, -⟩ := withPercentFor?_of_any hany.2 percent
  have hok := setPercentFor_eq_ok.2 ⟨h, entries, hset, rfl⟩
  obtain ⟨front, entry, behind, changed, hentries, hfront, htargets, hchanged, rfl⟩ :=
    exists_split_of_withPercentFor? hset
  refine ⟨front, entry, behind, changed, hentries, ?_, hchanged, hok⟩
  have hnone : front.find? (Entry.targets version) = none :=
    List.find?_eq_none.2 fun other hother => Bool.eq_false_iff.1 (hfront other hother)
  rw [hentries, List.find?_append, hnone, Option.none_or, List.find?_cons_of_pos htargets]

/-- The first entry of an unconstrained rollout can have its share set. -/
theorem setPercent_of_isUnconstrained {m : Mapping} (h : m.isUnconstrained = true)
    (percent : Percent) :
    ∃ first fallback changed, m.entries = [first, fallback] ∧
      first.withPercent? percent = some changed ∧
      m.setPercent percent = .ok { m with entries := [changed, fallback] } := by
  obtain ⟨⟨first, share, fallback⟩, hu⟩ := isUnconstrained_iff.1 h
  obtain ⟨hentries, hlogic, hshare, -⟩ := unconstrained?_eq_some.1 hu
  exact ⟨first, fallback, _, hentries, Entry.withPercent?_of_isShare hlogic hshare percent,
    setPercent_of_unconstrained? hu percent⟩

end Mapping

/-- **Reading and writing find the same share.** Writing changes the share that it finds and fails
only if it finds none. In every node of a constrained rollout it meets with reading, and a share
that stands alone is written itself and stays one. So in a mapping that holds a rollout for a
version there is an entry for it, its share can be set, and setting the percentage succeeds; and the
same goes for the first entry of an unconstrained rollout. -/
theorem writing_meets_reading :
    (∀ (node : Node) (percent : Percent),
      (node.withPercent? percent).isSome = node.writtenShare?.isSome) ∧
    (∀ (node : Node) (version : String) (share : Predicate),
      node.constrained? = some (version, share) →
        ∃ front behind, node.Meet version share front behind) ∧
    (∀ (share : Predicate), share.isShare = true → ∀ percent,
      (Node.predicate share).writtenShare? = some share ∧
        (Node.predicate share).withPercent? percent = some (.predicate (share.setShare percent)) ∧
        (share.setShare percent).isShare = true) ∧
    (∀ (m : Mapping) (version : String) (percent : Percent), m.hasRolloutFor version = true →
      ∃ front entry behind changed, m.entries = front ++ entry :: behind ∧
        m.entries.find? (Entry.targets version) = some entry ∧
        entry.withPercent? percent = some changed ∧
        m.setPercentFor version percent =
          .ok { m with entries := front ++ changed :: behind }) ∧
    ∀ (m : Mapping) (percent : Percent), m.isUnconstrained = true →
      ∃ first fallback changed, m.entries = [first, fallback] ∧
        first.withPercent? percent = some changed ∧
        m.setPercent percent = .ok { m with entries := [changed, fallback] } := by
  refine ⟨Node.withPercent?_isSome, ?_, ?_, ?_, ?_⟩
  · intro node version share h
    exact Node.meets_of_constrained? h
  · intro share h percent
    exact Node.withPercent?_of_isShare h percent
  · intro m version percent h
    exact Mapping.setPercentFor_of_hasRolloutFor h percent
  · intro m percent h
    exact Mapping.setPercent_of_isUnconstrained h percent

/-- A share of nobody, as someone might write it. -/
def shareOfNobody : Predicate := ⟨.number (.finite true .zero), rolloutTokenKey, .hashLess⟩

/-- A constrained rollout to that share, which stands in front of the version. -/
def rolloutToNobody : Node := .all [.predicate shareOfNobody, .predicate (.version "1.0")]

/-- Reading and writing that rollout, by itself and in a mapping, and the share alone. -/
theorem writing_meets_reading_nobody :
    rolloutToNobody.constrained? = some ("1.0", shareOfNobody) ∧
      (∃ front behind, rolloutToNobody.Meet "1.0" shareOfNobody front behind) ∧
      (Node.predicate shareOfNobody).withPercent? .full =
        some (.predicate (shareOfNobody.setShare .full)) ∧
      (Mapping.mk 7 [⟨"B2", rolloutToNobody⟩, ⟨"B1", .alwaysTrue⟩]).hasRolloutFor "1.0" = true ∧
      (∃ changed, (Mapping.mk 7 [⟨"B2", rolloutToNobody⟩, ⟨"B1", .alwaysTrue⟩]).setPercentFor
        "1.0" .full = .ok changed) ∧
      (Mapping.mk 7 [⟨"B2", .predicate shareOfNobody⟩, ⟨"B1", .alwaysTrue⟩]).isUnconstrained =
        true ∧
      ∃ changed, (Mapping.mk 7 [⟨"B2", .predicate shareOfNobody⟩, ⟨"B1", .alwaysTrue⟩]).setPercent
        .full = .ok changed := by
  have hfraction : (Binary64.finite true .zero).isFraction = true :=
    (Binary64.isFraction_iff _).2 ⟨true, .zero, rfl, Nat.zero_le _, fun _ => rfl⟩
  have hshare : shareOfNobody.isShare = true :=
    (Predicate.isShare_iff _).2 ⟨rfl, rfl, _, rfl, hfraction⟩
  have hread : rolloutToNobody.constrained? = some ("1.0", shareOfNobody) :=
    Node.constrained?_eq_some.2 ⟨.version "1.0", rfl, hshare, .inr rfl⟩
  have htargets : (Entry.mk "B2" rolloutToNobody).targets "1.0" = true :=
    Entry.targets_iff.2 ⟨_, hread⟩
  have hfound : (Mapping.mk 7 [⟨"B2", rolloutToNobody⟩, ⟨"B1", .alwaysTrue⟩]).hasRolloutFor
      "1.0" = true := by
    rw [Mapping.hasRolloutFor, List.any_cons, htargets]
    rfl
  have hunconstrained : (Mapping.mk 7 [⟨"B2", .predicate shareOfNobody⟩,
      ⟨"B1", .alwaysTrue⟩]).isUnconstrained = true :=
    Mapping.isUnconstrained_iff.2 ⟨_, Mapping.unconstrained?_eq_some.2 ⟨rfl, rfl, hshare, rfl⟩⟩
  obtain ⟨-, hmeet, halone, hfor, hall⟩ := writing_meets_reading
  obtain ⟨_, _, _, _, -, -, -, hset⟩ := hfor _ "1.0" .full hfound
  obtain ⟨_, _, _, -, -, hset'⟩ := hall _ .full hunconstrained
  exact ⟨hread, hmeet _ _ _ hread, (halone _ hshare .full).2.1, hfound, ⟨_, hset⟩, hunconstrained,
    _, hset'⟩

end StagedRollout
