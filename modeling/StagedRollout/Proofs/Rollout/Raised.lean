/-
# StagedRollout.Proofs.Rollout.Raised -- raising operands raises percentages

A mapping is raised to another one where numbers from zero to one, in predicates that stand alone or
directly inside an `and`, are made greater without leaving that range. Recognition does not see such
a change, so the raised mapping is a rollout of the same kind, with the same branches and runtime
versions, and no record of it has a smaller percentage (`Mapping.RaisedTo.rolloutInfo`).

Together with the order of operands and percentages this is `percents_ordered`.
-/
import Mathlib.Data.List.Forall2
import StagedRollout.Proofs.Rollout.Ledger
import StagedRollout.Proofs.Rollout.PercentOrder

namespace StagedRollout

/- The stored fraction is a quotient of large numbers, which nothing here looks into. -/
attribute [local irreducible] Percent.fraction Percent.ofFraction

/-! ## Predicates -/

namespace Predicate

/-- A predicate itself, or the same one with a greater fraction. -/
inductive RaisedTo : Predicate → Predicate → Prop
  | same (p : Predicate) : RaisedTo p p
  | raised {x y : Binary64} {clientKey : String} {operator : Operator}
      (hx : x.isFraction = true) (hy : y.isFraction = true) (hle : x ≤ y) :
      RaisedTo ⟨.number x, clientKey, operator⟩ ⟨.number y, clientKey, operator⟩

variable {p q : Predicate}

theorem RaisedTo.isShare (h : p.RaisedTo q) : p.isShare = q.isShare := by
  cases h with
  | same => rfl
  | raised hx hy _ => simp only [Predicate.isShare, Operand.isFraction, hx, hy, compares]

theorem RaisedTo.runtimeVersion? (h : p.RaisedTo q) : p.runtimeVersion? = q.runtimeVersion? := by
  cases h with
  | same => rfl
  | raised => rfl

/-- Raising a predicate does not lower its percentage. -/
theorem RaisedTo.percent_le (h : p.RaisedTo q) {low high : Percent} (hp : p.percent = .ok low)
    (hq : q.percent = .ok high) : low ≤ high := by
  cases h with
  | same =>
    obtain rfl := Except.ok.inj (hp.symm.trans hq)
    exact Nat.le_refl low.value
  | raised _ _ hle =>
    rw [percent_of_number rfl] at hp hq
    exact Percent.ofFraction_mono hp hq hle

end Predicate

/-! ## Nodes -/

/-- Of two constrained rollouts, the same version and a share that is raised. -/
def ShareRaised (a b : String × Predicate) : Prop := a.1 = b.1 ∧ a.2.RaisedTo b.2

/-- Two searches that find the like both find nothing, or both find something. -/
theorem rel_cases {α β : Type} {r : α → β → Prop} {a : Option α} {b : Option β}
    (h : Option.Rel r a b) : a = none ∧ b = none ∨ ∃ x y, a = some x ∧ b = some y ∧ r x y := by
  cases h with
  | none => exact .inl ⟨rfl, rfl⟩
  | some h => exact .inr ⟨_, _, rfl, rfl, h⟩

/-- Two searches that are tried one after the other find the like if each of them does. -/
theorem rel_orElse {α β : Type} {r : α → β → Prop} {a a' : Option α} {b b' : Option β}
    (h : Option.Rel r a b) (h' : Option.Rel r a' b') : Option.Rel r (a <|> a') (b <|> b') := by
  cases h with
  | none => exact h'
  | some h => exact .some h

theorem Predicate.RaisedTo.scoping? {p q p' q' : Predicate} (h : p.RaisedTo p')
    (h' : q.RaisedTo q') : Option.Rel ShareRaised (p.scoping? q) (p'.scoping? q') := by
  rw [Predicate.scoping?, Predicate.scoping?, h.runtimeVersion?, h'.isShare]
  cases p'.runtimeVersion? with
  | none => exact .none
  | some version =>
    cases q'.isShare with
    | false => exact .none
    | true => exact .some ⟨rfl, h'⟩

namespace Node

/-- A predicate that is raised, or any other node as it is. -/
inductive LeafRaisedTo : Node → Node → Prop
  | predicate {p q : Predicate} (h : p.RaisedTo q) : LeafRaisedTo (.predicate p) (.predicate q)
  | other {node : Node} (h : node.isPredicate = false) : LeafRaisedTo node node

/-- A node that is raised by itself or in what stands directly inside an `and`. -/
inductive RaisedTo : Node → Node → Prop
  | leaf {a b : Node} (h : LeafRaisedTo a b) : RaisedTo a b
  | all {as bs : List Node} (h : List.Forall₂ LeafRaisedTo as bs) : RaisedTo (.all as) (.all bs)

variable {a b : Node}

theorem RaisedTo.isAlwaysTrue (h : a.RaisedTo b) : a.isAlwaysTrue = b.isAlwaysTrue := by
  cases h with
  | leaf h =>
    cases h with
    | predicate => rfl
    | other => rfl
  | all => rfl

theorem LeafRaisedTo.of_predicate {p : Predicate} (h : LeafRaisedTo (.predicate p) b) :
    ∃ q, b = .predicate q ∧ p.RaisedTo q := by
  cases h with
  | predicate h => exact ⟨_, rfl, h⟩
  | other h => exact absurd h.symm Bool.false_ne_true

theorem LeafRaisedTo.to_predicate {q : Predicate} (h : LeafRaisedTo a (.predicate q)) :
    ∃ p, a = .predicate p := by
  cases h with
  | predicate _ => exact ⟨_, rfl⟩
  | other _ => exact ⟨_, rfl⟩

/-- The `and` of anything but two predicates is no constrained rollout. -/
theorem constrained?_eq_none {nodes : List Node}
    (h : ¬∃ p q, nodes = [.predicate p, .predicate q]) : (all nodes).constrained? = none := by
  rw [Option.eq_none_iff_forall_not_mem]
  rintro ⟨version, share⟩ hfound
  obtain ⟨scope, -, -, hnodes | hnodes⟩ := constrained?_eq_some.1 hfound
  · exact h ⟨_, _, all.inj hnodes⟩
  · exact h ⟨_, _, all.inj hnodes⟩

/-- **Recognition does not see that a share is raised.** -/
theorem RaisedTo.constrained? (h : a.RaisedTo b) :
    Option.Rel ShareRaised a.constrained? b.constrained? := by
  cases h with
  | leaf h =>
    cases h with
    | predicate => exact .none
    | other =>
      cases a.constrained? with
      | none => exact .none
      | some found => exact .some ⟨rfl, .same _⟩
  | @all as bs h =>
    by_cases hpair : ∃ p q, as = [.predicate p, .predicate q]
    · obtain ⟨p, q, rfl⟩ := hpair
      obtain _ | ⟨hfirst, _ | ⟨hsecond, _ | _⟩⟩ := h
      obtain ⟨p', rfl, hp⟩ := hfirst.of_predicate
      obtain ⟨q', rfl, hq⟩ := hsecond.of_predicate
      exact rel_orElse (hp.scoping? hq) (hq.scoping? hp)
    · -- then the raised nodes are no such pair either
      rw [constrained?_eq_none hpair, constrained?_eq_none ?_]
      · exact .none
      · rintro ⟨p', q', rfl⟩
        obtain _ | ⟨hfirst, _ | ⟨hsecond, _ | _⟩⟩ := h
        obtain ⟨p, rfl⟩ := hfirst.to_predicate
        obtain ⟨q, rfl⟩ := hsecond.to_predicate
        exact hpair ⟨p, q, rfl⟩

end Node

/-! ## Entries -/

/-- An entry of the same branch, with its logic raised. -/
structure Entry.RaisedTo (a b : Entry) : Prop where
  branchId : a.branchId = b.branchId
  logic : a.logic.RaisedTo b.logic

/-- A line for the same branch and version, with no smaller percentage. -/
structure LedgerLine.AtMost (a b : LedgerLine) : Prop where
  branchId : a.branchId = b.branchId
  runtimeVersion : a.runtimeVersion = b.runtimeVersion
  percent : a.percent ≤ b.percent

namespace Entry.RaisedTo

variable {a b : Entry}

theorem isFallback (h : a.RaisedTo b) : a.isFallback = b.isFallback := h.logic.isAlwaysTrue

/-- Raising an entry does not lower the percentage of its line. -/
theorem line? (h : a.RaisedTo b) : Option.Rel LedgerLine.AtMost a.line? b.line? := by
  obtain ⟨ha, hb⟩ | ⟨⟨version, share⟩, ⟨_, share'⟩, ha, hb, rfl, hshare⟩ :=
    rel_cases h.logic.constrained?
  · rw [line?_of_unconstrained ha, line?_of_unconstrained hb]
    exact .none
  · obtain ⟨low, hlow, hline⟩ := line?_of_constrained ha
    obtain ⟨high, hhigh, hline'⟩ := line?_of_constrained hb
    rw [hline, hline']
    exact .some ⟨h.branchId, rfl, hshare.percent_le hlow hhigh⟩

/-- The first fallback stands in the same place. -/
theorem find?_isFallback {as bs : List Entry} (h : List.Forall₂ Entry.RaisedTo as bs) :
    Option.Rel Entry.RaisedTo (as.find? Entry.isFallback) (bs.find? Entry.isFallback) := by
  induction h with
  | nil => exact .none
  | @cons first first' _ _ hfirst _ ih =>
    rw [List.find?_cons, List.find?_cons, hfirst.isFallback]
    cases first'.isFallback with
    | true => exact .some hfirst
    | false => exact ih

end Entry.RaisedTo

/-! ## Mappings -/

/-- A record of the same branches, with no smaller percentage. -/
structure RolloutRecord.AtMost (a b : RolloutRecord) : Prop where
  rolledOutBranchId : a.rolledOutBranchId = b.rolledOutBranchId
  percent : a.percent ≤ b.percent
  defaultBranchId : a.defaultBranchId = b.defaultBranchId

/-- A record that is bound to the same runtime version as well. -/
structure ConstrainedRecord.AtMost (a b : ConstrainedRecord) : Prop
    extends a.toRolloutRecord.AtMost b.toRolloutRecord where
  runtimeVersion : a.runtimeVersion = b.runtimeVersion

/-- Records of the same kind of rollout, none of them with a smaller percentage. -/
inductive RolloutInfo.AtMost : RolloutInfo → RolloutInfo → Prop
  | unconstrained {a b : RolloutRecord} (h : a.AtMost b) : AtMost (.unconstrained a) (.unconstrained b)
  | constrained {as bs : List ConstrainedRecord} (h : List.Forall₂ ConstrainedRecord.AtMost as bs) :
      AtMost (.constrained as) (.constrained bs)

namespace Mapping

/-- A mapping with some of its fractions made greater. -/
structure RaisedTo (a b : Mapping) : Prop where
  version : a.version = b.version
  entries : List.Forall₂ Entry.RaisedTo a.entries b.entries

namespace RaisedTo

variable {a b : Mapping}

theorem ledger (h : a.RaisedTo b) : List.Forall₂ LedgerLine.AtMost a.ledger b.ledger :=
  List.rel_filterMap (R := Entry.RaisedTo) (fun _ _ => Entry.RaisedTo.line?) h.entries

/-- What is found of an unconstrained rollout is raised in all of its parts. -/
theorem unconstrained? (h : a.RaisedTo b) :
    Option.Rel (fun found found' => found.1.RaisedTo found'.1 ∧ found.2.1.RaisedTo found'.2.1 ∧
      found.2.2.RaisedTo found'.2.2) a.unconstrained? b.unconstrained? := by
  obtain ⟨version, as⟩ := a
  obtain ⟨version', bs⟩ := b
  have hentries : List.Forall₂ Entry.RaisedTo as bs := h.entries
  obtain _ | @⟨first, first', _, _, hfirst, _ | @⟨fallback, fallback', _, _, hfallback, _ | _⟩⟩ :=
    hentries
  · exact .none
  · exact .none
  · have hlogic := hfirst.logic
    obtain ⟨branchId, logic⟩ := first
    obtain ⟨branchId', logic'⟩ := first'
    simp only at hlogic
    cases hlogic with
    | leaf hlogic =>
      cases hlogic with
      | @predicate p q hshare =>
        simp only [Mapping.unconstrained?, hshare.isShare, hfallback.isFallback]
        cases q.isShare && fallback'.isFallback with
        | true => exact .some ⟨hfirst, hshare, hfallback⟩
        | false => exact .none
      | other hother =>
        cases logic with
        | predicate p => exact absurd hother.symm Bool.false_ne_true
        | _ => exact .none
    | all _ => exact .none
  · exact .none

/-- **Raising operands lowers no percentage.** If a mapping has records, the raised one has records
of the same kind, for the same branches and versions, with no smaller percentage. -/
theorem rolloutInfo (h : a.RaisedTo b) {info : RolloutInfo} (hinfo : a.rolloutInfo = .ok info) :
    ∃ raised, b.rolloutInfo = .ok raised ∧ info.AtMost raised := by
  obtain ⟨first, share, fallback, low, hu, hlow, hread⟩ | ⟨fallback, hu, hf, hledger, hread⟩ |
      ⟨-, hread⟩ := a.rolloutInfo_cases
  · obtain rfl := Except.ok.inj (hread.symm.trans hinfo)
    obtain ⟨hnone, -⟩ | ⟨found, ⟨first', share', fallback'⟩, hfound, hu', hfirst, hshare, hfallback⟩ :=
      rel_cases h.unconstrained?
    · exact absurd (hnone.symm.trans hu) (by simp)
    · obtain rfl := Option.some.inj (hu.symm.trans hfound)
      obtain ⟨high, hhigh, hread'⟩ := rolloutInfo_of_unconstrained? hu'
      exact ⟨_, hread', .unconstrained
        ⟨hfirst.branchId, hshare.percent_le hlow hhigh, hfallback.branchId⟩⟩
  · obtain rfl := Except.ok.inj (hread.symm.trans hinfo)
    obtain ⟨hnone, -⟩ | ⟨_, fallback', hfound, hf', hfallback⟩ :=
      rel_cases (Entry.RaisedTo.find?_isFallback h.entries)
    · exact absurd (hnone.symm.trans hf) (by simp)
    obtain rfl := Option.some.inj (hf.symm.trans hfound)
    have hlines := h.ledger
    have hledger' : b.ledger ≠ [] := by
      intro hempty
      rw [hempty, List.forall₂_nil_right_iff] at hlines
      exact hledger hlines
    refine ⟨_, rolloutInfo_of_fallback? hf' hledger', .constrained ?_⟩
    rw [List.forall₂_map_left_iff, List.forall₂_map_right_iff]
    refine hlines.imp fun line line' hline => ?_
    exact ⟨⟨hline.branchId, hline.percent, hfallback.branchId⟩, hline.runtimeVersion⟩
  · exact absurd (hread.symm.trans hinfo) (by simp)

end RaisedTo

end Mapping

/-! ## Operands, percentages and reports -/

/-- **Percentages are ordered like the operands that they are read from.** Two numbers from zero to
one have percentages, and the greater number has no smaller one. The percentage of such a number is
at most a half away from its hundredfold, which is a double nearest to a hundred times the number.
A percentage comes back from the fraction that is stored for it. And a mapping that is raised
reports no smaller percentage than before. -/
theorem percents_ordered :
    (∀ x y : Binary64, x.isFraction = true → y.isFraction = true → x ≤ y →
      ∃ p q, Percent.ofFraction x = .ok p ∧ Percent.ofFraction y = .ok q ∧ p ≤ q) ∧
    (∀ x : Binary64, x.isFraction = true →
      ∃ p v z, Percent.ofFraction x = .ok p ∧ x.value? = some v ∧ x.hundredfold.value? = some z ∧
        NoneNearer z (100 * v) ∧ |(p.value : ℚ) - z| ≤ 1 / 2) ∧
    (∀ p : Percent, Percent.ofFraction p.fraction = .ok p) ∧
    ∀ (m raised : Mapping) (info : RolloutInfo), m.RaisedTo raised → m.rolloutInfo = .ok info →
      ∃ info', raised.rolloutInfo = .ok info' ∧ info.AtMost info' := by
  refine ⟨?_, ?_, Percent.ofFraction_fraction, fun _ _ _ h hinfo => h.rolloutInfo hinfo⟩
  · intro x y hx hy hle
    obtain ⟨p, hp⟩ := Percent.exists_ofFraction hx
    obtain ⟨q, hq⟩ := Percent.exists_ofFraction hy
    exact ⟨p, q, hp, hq, Percent.ofFraction_mono hp hq hle⟩
  · intro x hx
    obtain ⟨p, hp⟩ := Percent.exists_ofFraction hx
    obtain ⟨z, hz, hnear⟩ := Percent.ofFraction_near hp
    obtain ⟨negative, m, rfl, -⟩ := (Binary64.isFraction_iff x).1 hx
    exact ⟨p, _, z, hp, rfl, hz, Binary64.hundredfold_nearest rfl hz, hnear⟩

/-- A number of thousandths. -/
def thousandths (n : Nat) : Binary64 := Decimal.toBinary64 ⟨false, n, -3⟩

attribute [local irreducible] thousandths

/-- A share predicate with so many thousandths. -/
def shareOfThousandths (n : Nat) : Predicate :=
  ⟨.number (thousandths n), rolloutTokenKey, .hashLess⟩

/-- A constrained rollout to that share, as someone might write it. -/
def rolloutOfThousandths (n : Nat) : Mapping :=
  ⟨7, [⟨"B2", .all [.predicate (shareOfThousandths n), .predicate (.version "1.0")]⟩,
    ⟨"B1", .alwaysTrue⟩]⟩

/-- A share of 14.5 percent, which is reported as 14 percent, is raised to 15.5. -/
theorem percents_ordered_thousandths :
    (thousandths 145).isFraction = true ∧ (thousandths 155).isFraction = true ∧
      thousandths 145 ≤ thousandths 155 ∧
      (∃ p q, Percent.ofFraction (thousandths 145) = .ok p ∧
        Percent.ofFraction (thousandths 155) = .ok q ∧ p ≤ q) ∧
      (rolloutOfThousandths 145).RaisedTo (rolloutOfThousandths 155) ∧
      (rolloutOfThousandths 145).rolloutInfo =
        .ok (.constrained [⟨⟨"B2", ⟨14, by decide⟩, "B1"⟩, "1.0"⟩]) ∧
      ∃ info, (rolloutOfThousandths 155).rolloutInfo = .ok info ∧
        RolloutInfo.AtMost (.constrained [⟨⟨"B2", ⟨14, by decide⟩, "B1"⟩, "1.0"⟩]) info := by
  obtain ⟨hlow, hhigh, hle, hledger⟩ : (thousandths 145).isFraction = true ∧
      (thousandths 155).isFraction = true ∧ thousandths 145 ≤ thousandths 155 ∧
      (rolloutOfThousandths 145).ledger = [⟨"B2", "1.0", ⟨14, by decide⟩⟩] := by decide +kernel
  have hraised : (rolloutOfThousandths 145).RaisedTo (rolloutOfThousandths 155) := by
    have hshare : (shareOfThousandths 145).RaisedTo (shareOfThousandths 155) :=
      .raised hlow hhigh hle
    have hnodes := List.Forall₂.cons (Node.LeafRaisedTo.predicate hshare)
      (.cons (.predicate (.same (.version "1.0"))) .nil)
    exact ⟨rfl, .cons ⟨rfl, .all hnodes⟩ (.cons ⟨rfl, .leaf (.other rfl)⟩ .nil)⟩
  have hinfo := Mapping.rolloutInfo_of_fallback? (m := rolloutOfThousandths 145) rfl
    (by rw [hledger]; exact List.cons_ne_nil _ _)
  rw [hledger] at hinfo
  obtain ⟨hordered, -, -, hreports⟩ := percents_ordered
  exact ⟨hlow, hhigh, hle, hordered _ _ hlow hhigh hle, hraised, hinfo, hreports _ _ _ hraised hinfo⟩

end StagedRollout
