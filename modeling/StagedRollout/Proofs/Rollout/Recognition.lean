/-
# StagedRollout.Proofs.Rollout.Recognition -- what is recognised as a rollout

The recognisers turned into equations. A node is a constrained rollout exactly when it is the `and`
of a predicate that fixes a version and a share predicate, in one order or the other
(`Node.constrained?_eq_some`); setting its percentage reaches that share predicate
(`Node.withPercent?_of_constrained`); and a mapping is an unconstrained rollout exactly when it is
a share predicate in front of a fallback (`Mapping.unconstrained?_eq_some`).
-/
import StagedRollout.Proofs.Rollout.Fraction

namespace StagedRollout

/- The stored fraction is a quotient of large numbers, which nothing here looks into. -/
attribute [local irreducible] Percent.fraction Percent.ofFraction

/-! ## Share predicates and version predicates -/

namespace Predicate

theorem isShare_iff (p : Predicate) :
    p.isShare = true ↔ p.clientKey = rolloutTokenKey ∧ p.operator = .hashLess ∧
      ∃ x, p.operand = .number x ∧ x.isFraction = true := by
  simp only [isShare, compares, Bool.and_eq_true, decide_eq_true_eq, and_assoc]
  cases hp : p.operand <;> simp [Operand.isFraction]

/-- A share predicate fixes no runtime version: it looks at another key. -/
theorem runtimeVersion?_of_isShare {p : Predicate} (h : p.isShare = true) :
    p.runtimeVersion? = none := by
  have hkey : p.clientKey ≠ runtimeVersionKey := by
    rw [((isShare_iff p).1 h).1]
    decide
  simp [runtimeVersion?, compares, hkey]

theorem isShare_of_runtimeVersion? {p : Predicate} {version : String}
    (h : p.runtimeVersion? = some version) : p.isShare = false := by
  cases hs : p.isShare with
  | false => rfl
  | true => rw [runtimeVersion?_of_isShare hs] at h; exact absurd h (by simp)

/-- A predicate with its operand set to a percentage. -/
abbrev setShare (p : Predicate) (percent : Percent) : Predicate :=
  { p with operand := .number percent.fraction }

/-- A share predicate stays one when its share is set. -/
theorem isShare_setShare {p : Predicate} (h : p.isShare = true) (percent : Percent) :
    (p.setShare percent).isShare = true := by
  obtain ⟨hkey, hop, -⟩ := (isShare_iff p).1 h
  exact (isShare_iff _).2 ⟨hkey, hop, _, rfl, percent.isFraction_fraction⟩

/-- The predicate that is made for a percentage is a share predicate. -/
theorem isShare_share (percent : Percent) : (share percent).isShare = true :=
  (isShare_iff _).2 ⟨rfl, rfl, _, rfl, percent.isFraction_fraction⟩

theorem percent_of_number {p : Predicate} {x : Binary64} (h : p.operand = .number x) :
    p.percent = Percent.ofFraction x := by
  rw [Predicate.percent, h]
  rfl

/-- Every share predicate has a percentage. -/
theorem exists_percent {p : Predicate} (h : p.isShare = true) :
    ∃ percent, p.percent = .ok percent := by
  obtain ⟨-, -, x, hx, hfraction⟩ := (isShare_iff p).1 h
  obtain ⟨percent, hpercent⟩ := Percent.exists_ofFraction hfraction
  exact ⟨percent, (percent_of_number hx).trans hpercent⟩

theorem percent_setShare (p : Predicate) (percent : Percent) :
    (p.setShare percent).percent = .ok percent := by
  rw [percent_of_number rfl, Percent.ofFraction_fraction]

theorem scoping?_of_isShare {p share : Predicate} (h : p.isShare = true) :
    p.scoping? share = none := by
  rw [scoping?, runtimeVersion?_of_isShare h]
  rfl

theorem scoping?_eq_some {p share found : Predicate} {version : String} :
    p.scoping? share = some (version, found) ↔
      p.runtimeVersion? = some version ∧ share.isShare = true ∧ found = share := by
  rw [scoping?]
  cases p.runtimeVersion? with
  | none => simp
  | some v =>
    cases share.isShare with
    | false => simp
    | true => simp [eq_comm]

end Predicate

/-! ## The node of a constrained rollout -/

namespace Node

/-- The two predicates of a constrained rollout, in either order. -/
theorem constrained?_eq_some {node : Node} {version : String} {share : Predicate} :
    node.constrained? = some (version, share) ↔
      ∃ scope, scope.runtimeVersion? = some version ∧ share.isShare = true ∧
        (node = .all [.predicate scope, .predicate share] ∨
          node = .all [.predicate share, .predicate scope]) := by
  constructor
  · intro h
    unfold constrained? at h
    -- the first predicate or else the second one is the scope
    split at h
    · next a b =>
      rw [Option.orElse_eq_orElse, Option.orElse_eq_or, Option.or_eq_some_iff] at h
      rcases h with h | ⟨-, h⟩
      · obtain ⟨hv, hs, rfl⟩ := Predicate.scoping?_eq_some.1 h
        exact ⟨a, hv, hs, .inl rfl⟩
      · obtain ⟨hv, hs, rfl⟩ := Predicate.scoping?_eq_some.1 h
        exact ⟨b, hv, hs, .inr rfl⟩
    · exact absurd h (by simp)
  · rintro ⟨scope, hv, hs, rfl | rfl⟩
    · rw [constrained?, Predicate.scoping?_eq_some.2 ⟨hv, hs, rfl⟩]
      rfl
    · rw [constrained?, Predicate.scoping?_of_isShare hs,
        Predicate.scoping?_eq_some.2 ⟨hv, hs, rfl⟩]
      rfl

/-- The search for a share stops at a share predicate. -/
theorem withPercentAmong?_of_isShare {p : Predicate} (h : p.isShare = true) (percent : Percent)
    (rest : List Node) :
    withPercentAmong? percent (.predicate p :: rest) =
      some (.predicate (p.setShare percent) :: rest) := by
  rw [withPercentAmong?, if_pos h]

/-- The search for a share passes over any other node. -/
theorem withPercentAmong?_of_not_isShare {node : Node} (h : node.isShare = false)
    (percent : Percent) (rest : List Node) :
    withPercentAmong? percent (node :: rest) =
      (withPercentAmong? percent rest).map (node :: ·) := by
  cases node with
  | predicate p =>
    have hp : p.isShare = false := h
    rw [withPercentAmong?, if_neg (Bool.eq_false_iff.1 hp)]
    rfl
  | _ => rfl

/-- Among nodes, the first share predicate is set, and nothing else changes. -/
theorem withPercentAmong?_eq_some {percent : Percent} {nodes changed : List Node} :
    withPercentAmong? percent nodes = some changed ↔ ∃ front share behind,
      nodes = front ++ .predicate share :: behind ∧ (∀ node ∈ front, node.isShare = false) ∧
        share.isShare = true ∧
        changed = front ++ .predicate (share.setShare percent) :: behind := by
  constructor
  · intro h
    induction nodes generalizing changed with
    | nil => exact absurd h (by simp [withPercentAmong?])
    | cons node rest ih =>
      cases hs : node.isShare with
      | true =>
        cases node with
        | predicate share =>
          rw [withPercentAmong?_of_isShare hs, Option.some.injEq] at h
          exact ⟨[], share, rest, rfl, by simp, hs, h.symm⟩
        | _ => exact absurd hs Bool.false_ne_true
      | false =>
        rw [withPercentAmong?_of_not_isShare hs] at h
        obtain ⟨rest', hrest, rfl⟩ := Option.map_eq_some_iff.1 h
        obtain ⟨front, share, behind, rfl, hfront, hshare, rfl⟩ := ih hrest
        exact ⟨node :: front, share, behind, rfl, List.forall_mem_cons.2 ⟨hs, hfront⟩, hshare, rfl⟩
  · rintro ⟨front, share, behind, rfl, hfront, hshare, rfl⟩
    induction front with
    | nil => exact withPercentAmong?_of_isShare hshare percent behind
    | cons node front ih =>
      obtain ⟨hnode, hfront⟩ := List.forall_mem_cons.1 hfront
      rw [List.cons_append, withPercentAmong?_of_not_isShare hnode, ih hfront]
      rfl

/-- Setting a percentage reaches a share predicate, be it the node itself or the first one directly
inside an `and`. -/
theorem withPercent?_eq_some {percent : Percent} {node changed : Node} :
    node.withPercent? percent = some changed ↔
      (∃ share, node = .predicate share ∧ share.isShare = true ∧
        changed = .predicate (share.setShare percent)) ∨
      ∃ front share behind, node = .all (front ++ .predicate share :: behind) ∧
        (∀ other ∈ front, other.isShare = false) ∧ share.isShare = true ∧
        changed = .all (front ++ .predicate (share.setShare percent) :: behind) := by
  cases node with
  | predicate p =>
    rw [withPercent?, Option.ite_none_right_eq_some, Option.some.injEq]
    constructor
    · rintro ⟨hshare, rfl⟩
      exact .inl ⟨p, rfl, hshare, rfl⟩
    · rintro (⟨_, ⟨⟩, hshare, rfl⟩ | ⟨_, _, _, ⟨⟩, -⟩)
      exact ⟨hshare, rfl⟩
  | all nodes =>
    rw [withPercent?, Option.map_eq_map, Option.map_eq_some_iff]
    simp only [withPercentAmong?_eq_some, reduceCtorEq, false_and, exists_false, false_or,
      all.injEq]
    constructor
    · rintro ⟨_, ⟨front, share, behind, hnodes, hfront, hshare, rfl⟩, rfl⟩
      exact ⟨front, share, behind, hnodes, hfront, hshare, rfl⟩
    · rintro ⟨front, share, behind, hnodes, hfront, hshare, rfl⟩
      exact ⟨_, ⟨front, share, behind, hnodes, hfront, hshare, rfl⟩, rfl⟩
  | _ => simp [withPercent?]

/-- Setting the percentage of a constrained rollout reaches its share and nothing else. -/
theorem withPercent?_of_constrained {node : Node} {version : String} {share : Predicate}
    (h : node.constrained? = some (version, share)) (percent : Percent) :
    ∃ changed, node.withPercent? percent = some changed ∧
      changed.constrained? = some (version, share.setShare percent) := by
  obtain ⟨scope, hv, hs, rfl | rfl⟩ := constrained?_eq_some.1 h
  -- the scope in front is no share, so the search goes past it
  · refine ⟨.all [.predicate scope, .predicate (share.setShare percent)], ?_,
      constrained?_eq_some.2 ⟨scope, hv, Predicate.isShare_setShare hs percent, .inl rfl⟩⟩
    simp [withPercent?, withPercentAmong?, Predicate.isShare_of_runtimeVersion? hv, hs]
  · refine ⟨.all [.predicate (share.setShare percent), .predicate scope], ?_,
      constrained?_eq_some.2 ⟨scope, hv, Predicate.isShare_setShare hs percent, .inr rfl⟩⟩
    simp [withPercent?, withPercentAmong?, hs]

/-- The share of a constrained rollout is the only share among its nodes. -/
theorem exists_split_of_constrained? {node : Node} {version : String} {share : Predicate}
    (h : node.constrained? = some (version, share)) :
    ∃ front behind, node = .all (front ++ .predicate share :: behind) ∧
      (∀ other ∈ front, other.isShare = false) ∧ ∀ other ∈ behind, other.isShare = false := by
  obtain ⟨scope, hv, -, rfl | rfl⟩ := constrained?_eq_some.1 h
  · refine ⟨[.predicate scope], [], rfl, fun other hother => ?_, by simp⟩
    rw [List.mem_singleton.1 hother]
    exact Predicate.isShare_of_runtimeVersion? hv
  · refine ⟨[], [.predicate scope], rfl, by simp, fun other hother => ?_⟩
    rw [List.mem_singleton.1 hother]
    exact Predicate.isShare_of_runtimeVersion? hv

/-- What inserting puts in front is a constrained rollout. -/
theorem constrained?_constrained (version : String) (percent : Percent) :
    (constrained version percent).constrained? = some (version, .share percent) :=
  constrained?_eq_some.2 ⟨.version version, rfl, Predicate.isShare_share percent, .inl rfl⟩

theorem isAlwaysTrue_iff {node : Node} : node.isAlwaysTrue = true ↔ node = .alwaysTrue := by
  cases node <;> simp [isAlwaysTrue]

/-- No constrained rollout catches every client. -/
theorem isAlwaysTrue_of_constrained {node : Node} {found : String × Predicate}
    (h : node.constrained? = some found) : node.isAlwaysTrue = false := by
  cases node with
  | alwaysTrue => exact absurd h (by simp [constrained?])
  | _ => rfl

end Node

/-! ## The mapping of an unconstrained rollout -/

namespace Mapping

/-- An unconstrained rollout is a share predicate in front of the fallback. -/
theorem unconstrained?_eq_some {m : Mapping} {first fallback : Entry} {share : Predicate} :
    m.unconstrained? = some (first, share, fallback) ↔
      m.entries = [first, fallback] ∧ first.logic = .predicate share ∧ share.isShare = true ∧
        fallback.isFallback = true := by
  constructor
  · intro h
    unfold unconstrained? at h
    split at h
    · next rolledOut last hentries =>
      split at h
      · next p hlogic =>
        rw [Option.ite_none_right_eq_some, Bool.and_eq_true, Option.some.injEq] at h
        obtain ⟨⟨hshare, hlast⟩, heq⟩ := h
        cases heq
        exact ⟨hentries, hlogic, hshare, hlast⟩
      · exact absurd h (by simp)
    · exact absurd h (by simp)
  · rintro ⟨hentries, hlogic, hshare, hlast⟩
    simp [unconstrained?, hentries, hlogic, hshare, hlast]

end Mapping

end StagedRollout
