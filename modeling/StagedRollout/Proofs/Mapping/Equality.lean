/-
# StagedRollout.Proofs.Mapping.Equality -- equality as numbers go

Equality of mappings compares their numbers as numbers, so it is not the equality of the logic: the
two zeros are equal, and a value that is not a number makes a mapping differ from itself. It is
symmetric and transitive all the same (`Mapping.same_symm`, `Mapping.same_trans`), which is all that
is needed to carry it along a series of steps, and entry by entry it is a relation of lists
(`Mapping.sameEntries_iff`).
-/
import Mathlib.Data.List.Forall2
import StagedRollout.Proofs.Mapping.Written

namespace StagedRollout

/- Nothing here computes with the bounds of the numbers. -/
attribute [local irreducible] unitsOfOne unitsLimit

/-! ## Numbers, operands and predicates -/

namespace Binary64

/-- Equality of numbers does not depend on their order, also where one is not a number. -/
theorem same_comm (x y : Binary64) : x.same y = y.same x := Bool.and_comm _ _

/-- Numbers that are equal to the same number stand at the same place, so they are equal. -/
theorem same_trans {x y z : Binary64} (hxy : x.same y = true) (hyz : y.same z = true) :
    x.same z = true := by
  obtain ⟨place, hx, hy⟩ := same_iff.1 hxy
  obtain ⟨place', hy', hz⟩ := same_iff.1 hyz
  obtain rfl := Option.some.inj (hy.symm.trans hy')
  exact same_iff.2 ⟨place, hx, hz⟩

end Binary64

namespace Operand

theorem same_comm (a b : Operand) : a.same b = b.same a := by
  cases a <;> cases b <;> simp only [same, Binary64.same_comm, eq_comm]

/-- Equal operands are of one kind; of the three kinds only numbers compare other than by
identity. -/
theorem same_trans {a b c : Operand} (hab : a.same b = true) (hbc : b.same c = true) :
    a.same c = true := by
  cases a with
  | number x =>
    cases b with
    | number y =>
      cases c with
      | number z => exact Binary64.same_trans hab hbc
      | _ => exact absurd hbc Bool.false_ne_true
    | _ => exact absurd hab Bool.false_ne_true
  | text content =>
    cases b with
    | text content' => rw [of_decide_eq_true hab]; exact hbc
    | _ => exact absurd hab Bool.false_ne_true
  | texts contents =>
    cases b with
    | texts contents' => rw [of_decide_eq_true hab]; exact hbc
    | _ => exact absurd hab Bool.false_ne_true

end Operand

namespace Predicate

/-- Predicates are equal if they compare the same key in the same way with equal operands. -/
theorem same_iff {p q : Predicate} :
    p.same q = true ↔
      p.operand.same q.operand = true ∧ p.clientKey = q.clientKey ∧ p.operator = q.operator := by
  simp only [same, Bool.and_eq_true, decide_eq_true_eq, and_assoc]

theorem same_comm (p q : Predicate) : p.same q = q.same p := by
  simp only [same, Operand.same_comm p.operand, eq_comm]

theorem same_trans {p q r : Predicate} (hpq : p.same q = true) (hqr : q.same r = true) :
    p.same r = true := by
  obtain ⟨hoperand, hkey, hoperator⟩ := same_iff.1 hpq
  obtain ⟨hoperand', hkey', hoperator'⟩ := same_iff.1 hqr
  exact same_iff.2
    ⟨Operand.same_trans hoperand hoperand', hkey.trans hkey', hoperator.trans hoperator'⟩

end Predicate

/-! ## Nodes -/

mutual

/-- Equality of nodes does not depend on their order, nor does that of lists of nodes. -/
theorem Node.same_comm : ∀ a b : Node, a.same b = b.same a
  | .alwaysTrue, b => by cases b <;> simp only [Node.same]
  | .predicate p, b => by
      cases b with
      | predicate q => rw [Node.same, Node.same, Predicate.same_comm]
      | _ => simp only [Node.same]
  | .all as, b => by
      cases b with
      | all bs => rw [Node.same, Node.same, sameNodes_comm as bs]
      | _ => simp only [Node.same]
  | .any as, b => by
      cases b with
      | any bs => rw [Node.same, Node.same, sameNodes_comm as bs]
      | _ => simp only [Node.same]
  | .not a, b => by
      cases b with
      | not b => rw [Node.same, Node.same, Node.same_comm a b]
      | _ => simp only [Node.same]

theorem sameNodes_comm : ∀ as bs : List Node, sameNodes as bs = sameNodes bs as
  | [], bs => by cases bs <;> simp only [sameNodes]
  | a :: as, bs => by
      cases bs with
      | nil => simp only [sameNodes]
      | cons b bs => rw [sameNodes, sameNodes, Node.same_comm a b, sameNodes_comm as bs]

end

mutual

/-- Equality of nodes is transitive. Only nodes of one kind are equal, so the cases go along one
chain of constructors, and lists of nodes are compared head by head. -/
theorem Node.same_trans : ∀ {a b c : Node}, a.same b = true → b.same c = true → a.same c = true
  | .alwaysTrue, .alwaysTrue, _, _, h => h
  | .predicate p, .predicate q, .predicate r, h, h' => by
      rw [Node.same] at h h' ⊢
      exact Predicate.same_trans h h'
  | .all as, .all bs, .all cs, h, h' => by
      rw [Node.same] at h h' ⊢
      exact sameNodes_trans h h'
  | .any as, .any bs, .any cs, h, h' => by
      rw [Node.same] at h h' ⊢
      exact sameNodes_trans h h'
  | .not a, .not b, .not c, h, h' => by
      rw [Node.same] at h h' ⊢
      exact Node.same_trans h h'

theorem sameNodes_trans : ∀ {as bs cs : List Node}, sameNodes as bs = true →
    sameNodes bs cs = true → sameNodes as cs = true
  | [], [], _, _, h => h
  | a :: as, b :: bs, c :: cs, h, h' => by
      rw [sameNodes, Bool.and_eq_true] at h h' ⊢
      exact ⟨Node.same_trans h.1 h'.1, sameNodes_trans h.2 h'.2⟩

end

/-! ## Entries and mappings -/

/-- What is transitive for items is transitive for lists of them. -/
theorem forall₂_trans {α : Type} {R : α → α → Prop}
    (hR : ∀ a b c, R a b → R b c → R a c)
    {as bs cs : List α} (hab : List.Forall₂ R as bs) (hbc : List.Forall₂ R bs cs) :
    List.Forall₂ R as cs := by
  induction hab generalizing cs with
  | nil => exact hbc
  | cons hfirst _ ih =>
    obtain _ | ⟨hfirst', hrest'⟩ := hbc
    exact .cons (hR _ _ _ hfirst hfirst') (ih hrest')

/-- Equality of entries, where numbers are compared as numbers. -/
structure Entry.Same (a b : Entry) : Prop where
  branchId : a.branchId = b.branchId
  logic : a.logic.same b.logic = true

theorem Entry.same_iff {a b : Entry} :
    a.Same b ↔ a.branchId = b.branchId ∧ a.logic.same b.logic = true :=
  ⟨fun h => ⟨h.branchId, h.logic⟩, fun h => ⟨h.1, h.2⟩⟩

namespace Entry.Same

theorem symm {a b : Entry} (h : a.Same b) : b.Same a where
  branchId := h.branchId.symm
  logic := (Node.same_comm _ _).trans h.logic

theorem trans {a b c : Entry} (hab : a.Same b) (hbc : b.Same c) : a.Same c where
  branchId := hab.branchId.trans hbc.branchId
  logic := Node.same_trans hab.logic hbc.logic

end Entry.Same

namespace Mapping

/-- Equal entries stand in the same order, one against one. -/
theorem sameEntries_iff {as bs : List Entry} :
    sameEntries as bs = true ↔ List.Forall₂ Entry.Same as bs := by
  induction as generalizing bs with
  | nil => cases bs <;> simp [sameEntries]
  | cons a as ih =>
    cases bs with
    | nil => simp [sameEntries]
    | cons b bs =>
      rw [List.forall₂_cons, ← ih, Entry.same_iff, sameEntries, Bool.and_eq_true, Bool.and_eq_true,
        decide_eq_true_eq]

/-- Equal mappings have the same version, and their entries are equal one against one. -/
theorem same_iff {a b : Mapping} :
    a.same b = true ↔ a.version = b.version ∧ List.Forall₂ Entry.Same a.entries b.entries := by
  rw [same, Bool.and_eq_true, decide_eq_true_eq, sameEntries_iff]

theorem same_symm {a b : Mapping} (h : a.same b = true) : b.same a = true := by
  obtain ⟨hversion, hentries⟩ := same_iff.1 h
  exact same_iff.2 ⟨hversion.symm, (hentries.imp fun _ _ => Entry.Same.symm).flip⟩

/-- Equality of mappings can be composed, as along the steps of a series. -/
theorem same_trans {a b c : Mapping} (hab : a.same b = true) (hbc : b.same c = true) :
    a.same c = true := by
  obtain ⟨hversion, hentries⟩ := same_iff.1 hab
  obtain ⟨hversion', hentries'⟩ := same_iff.1 hbc
  refine same_iff.2 ⟨hversion.trans hversion', forall₂_trans ?_ hentries hentries'⟩
  exact fun _ _ _ => Entry.Same.trans

end Mapping

end StagedRollout
