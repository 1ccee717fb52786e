/-
# StagedRollout.Proofs.Rollout.OperandRange -- which operands have a percentage

Every fraction has a percentage, but not only fractions have one. The range is tested on the
hundredfold after it was rounded to an integer, so a number is let in as long as it rounds to an end
of the range. As rounding keeps the order, the numbers let in are an interval, which
`Percent.ofFraction_accepts` gives by its two ends: from the last double above -0.005 to the double
that is written 1.005. What is let in beyond an end has the percentage of that end.
-/
import StagedRollout.Proofs.Number.Nearest
import StagedRollout.Proofs.Rollout.Fraction

namespace StagedRollout

/- Powers of natural numbers are the core library's own, and the large ones stay folded. -/
attribute [local instance (2000)] instPowNat
attribute [local irreducible] unitsOfOne unitsLimit

namespace Percent

/-! ## Hundredfolds that are near enough -/

theorem ofInt?_eq_some {i : Int} {p : Percent} : ofInt? i = some p ↔ i = p.value := by
  have hp := p.value_le
  unfold ofInt?
  split
  · next hi =>
    rw [Option.some.injEq]
    constructor
    · rintro rfl
      show i = (i.toNat : Int)
      omega
    · rintro rfl
      rfl
  · next hi =>
    constructor
    · intro h
      exact absurd h (by simp)
    · rintro rfl
      omega

theorem bind_ofInt?_eq_some {found : Option Int} {p : Percent} :
    (found >>= ofInt?) = some p ↔ found = some (p.value : Int) := by
  rw [Option.bind_eq_bind, Option.bind_eq_some_iff]
  constructor
  · rintro ⟨i, rfl, hi⟩
    rw [ofInt?_eq_some.1 hi]
  · rintro rfl
    exact ⟨_, rfl, ofInt?_eq_some.2 rfl⟩

/-- The percentage of a number is the integer nearest to its hundredfold. -/
theorem ofFraction_eq_ok {x : Binary64} {p : Percent} :
    ofFraction x = .ok p ↔ x.hundredfold.nearestInt? = some (p.value : Int) := by
  rw [← bind_ofInt?_eq_some, ofFraction]
  cases x.hundredfold.nearestInt? >>= ofInt? <;> simp

theorem nearestInt?_ofRatio {negative : Bool} {num : Nat} {i : Int} :
    (Binary64.ofRatio negative num 1).nearestInt? = some i ↔
      roundUnits num 1 < unitsLimit ∧
        signed negative ((2 * roundUnits num 1 + unitsOfOne) / (2 * unitsOfOne)) = i := by
  unfold Binary64.ofRatio
  split
  · next hlt => simp [Binary64.nearestInt?, hlt]
  · next hlt => simp [Binary64.nearestInt?, hlt]

theorem ofFraction_finite_eq_ok {negative : Bool} {m : Magnitude} {p : Percent} :
    ofFraction (.finite negative m) = .ok p ↔
      roundUnits (100 * m.units) 1 < unitsLimit ∧
        signed negative ((2 * roundUnits (100 * m.units) 1 + unitsOfOne) / (2 * unitsOfOne)) =
          p.value :=
  ofFraction_eq_ok.trans nearestInt?_ofRatio

/-- A finite number has a percentage if its rounded hundredfold is less than a half below zero or
above a hundred. -/
theorem exists_ofFraction_iff {negative : Bool} {m : Magnitude} :
    (∃ p, ofFraction (.finite negative m) = .ok p) ↔
      2 * roundUnits (100 * m.units) 1 < (if negative then 1 else 201) * unitsOfOne := by
  have hfar : 201 * unitsOfOne < unitsLimit := whole_lt_unitsLimit (by decide)
  simp only [ofFraction_finite_eq_ok]
  cases negative with
  | false =>
    show _ ↔ 2 * roundUnits (100 * m.units) 1 < 201 * unitsOfOne
    constructor
    · rintro ⟨p, -, hvalue⟩
      apply (nearest_lt_iff (n := 100)).1
      rw [Int.ofNat.inj hvalue]
      exact Nat.lt_succ_of_le p.value_le
    · intro hlt
      exact ⟨⟨_, Nat.le_of_lt_succ (nearest_lt_iff.2 hlt)⟩, by omega, rfl⟩
  | true =>
    show _ ↔ 2 * roundUnits (100 * m.units) 1 < 1 * unitsOfOne
    constructor
    · rintro ⟨p, -, hvalue⟩
      apply (nearest_lt_iff (n := 0)).1
      -- only zero is its own opposite
      rw [signed, if_pos rfl] at hvalue
      generalize (2 * roundUnits (100 * m.units) 1 + unitsOfOne) / (2 * unitsOfOne) = n at hvalue ⊢
      omega
    · intro hlt
      refine ⟨zero, by omega, ?_⟩
      rw [Nat.lt_one_iff.1 (nearest_lt_iff.2 hlt)]
      rfl

/-- Where the rounded hundredfold passes a bound between a double and the next one, the doubles below
the bound are those up to the former. -/
theorem hundredfold_lt_iff {last : Magnitude} {bound : Nat}
    (hlast : 2 * roundUnits (100 * last.units) 1 < bound)
    (hnext : bound ≤ 2 * roundUnits
      (100 * (last.units + 2 ^ (last.units.log2 - fractionBits))) 1) (m : Magnitude) :
    2 * roundUnits (100 * m.units) 1 < bound ↔ m.units ≤ last.units := by
  constructor
  · intro hlt
    by_contra hless
    have hgap := add_place_le last.aligned m.aligned (Nat.lt_of_not_le hless)
    have hmono := roundUnits_mono Nat.one_pos (Nat.mul_le_mul_left 100 hgap)
    omega
  · intro hle
    have hmono := roundUnits_mono Nat.one_pos (Nat.mul_le_mul_left 100 hle)
    omega

/-! ## The ends of the range -/

/-- The least operand that has a percentage, the last one above -0.005. -/
def leastOperand : Binary64 := Decimal.toBinary64 ⟨true, 4999999999999999, -18⟩

/-- The greatest operand that has a percentage. -/
def greatestOperand : Binary64 := Decimal.toBinary64 ⟨false, 1005, -3⟩

/-- Among the finite numbers of a sign, the last one whose rounded hundredfold is below half of a
bound. -/
def lastBelow (negative : Bool) (bound : Nat) : Binary64 → Bool
  | .finite sign m => sign = negative && 2 * roundUnits (100 * m.units) 1 < bound &&
    bound ≤ 2 * roundUnits (100 * (m.units + 2 ^ (m.units.log2 - fractionBits))) 1
  | _ => false

theorem exists_of_lastBelow {negative : Bool} {bound : Nat} {x : Binary64}
    (h : lastBelow negative bound x = true) :
    ∃ last, x = .finite negative last ∧
      ∀ m : Magnitude, 2 * roundUnits (100 * m.units) 1 < bound ↔ m.units ≤ last.units := by
  cases x with
  | finite sign last =>
    rw [lastBelow, Bool.and_eq_true, Bool.and_eq_true, decide_eq_true_eq, decide_eq_true_eq,
      decide_eq_true_eq] at h
    obtain ⟨⟨rfl, hlast⟩, hnext⟩ := h
    exact ⟨last, rfl, hundredfold_lt_iff hlast hnext⟩
  | _ => exact absurd h (by simp [lastBelow])

/-- The two ends are the last numbers of their signs whose rounded hundredfold is less than a half
below zero or above a hundred. -/
theorem lastBelow_ends :
    lastBelow true (1 * unitsOfOne) leastOperand = true ∧
      lastBelow false (201 * unitsOfOne) greatestOperand = true := by
  decide +kernel

/-- Only finite numbers have a percentage. -/
theorem isFinite_of_ofFraction {x : Binary64} {p : Percent} (h : ofFraction x = .ok p) :
    x.isFinite = true := by
  have hnearest := ofFraction_eq_ok.1 h
  cases x with
  | finite negative m => rfl
  | nan => exact absurd hnearest (by simp [Binary64.hundredfold, Binary64.nearestInt?])
  | infinite negative => exact absurd hnearest (by simp [Binary64.hundredfold, Binary64.nearestInt?])

/-- **The operands that have a percentage are an interval.** -/
theorem exists_ofFraction_iff_range (x : Binary64) :
    (∃ p, ofFraction x = .ok p) ↔ leastOperand ≤ x ∧ x ≤ greatestOperand := by
  obtain ⟨low, hlow, hlowest⟩ := exists_of_lastBelow lastBelow_ends.1
  obtain ⟨high, hhigh, hhighest⟩ := exists_of_lastBelow lastBelow_ends.2
  have hplaced : leastOperand ≤ x ∧ x ≤ greatestOperand ↔
      Binary64.PlacedLE (some (-(low.units : Int))) x.place? ∧
        Binary64.PlacedLE x.place? (some (high.units : Int)) := by
    rw [hlow, hhigh]
    exact Iff.rfl
  have hlimit := low.bounded
  have hlimit' := high.bounded
  rw [hplaced]
  cases x with
  | finite negative m =>
    rw [exists_ofFraction_iff]
    cases negative with
    | false =>
      show 2 * roundUnits (100 * m.units) 1 < 201 * unitsOfOne ↔
        -(low.units : Int) ≤ (m.units : Int) ∧ (m.units : Int) ≤ high.units
      rw [hhighest]
      omega
    | true =>
      show 2 * roundUnits (100 * m.units) 1 < 1 * unitsOfOne ↔
        -(low.units : Int) ≤ -(m.units : Int) ∧ -(m.units : Int) ≤ high.units
      rw [hlowest]
      omega
  | nan =>
    constructor
    · rintro ⟨p, hp⟩
      exact absurd (isFinite_of_ofFraction hp) Bool.false_ne_true
    · rintro ⟨hnothing, -⟩
      exact hnothing.elim
  | infinite negative =>
    constructor
    · rintro ⟨p, hp⟩
      exact absurd (isFinite_of_ofFraction hp) Bool.false_ne_true
    · -- an infinity stands beyond every finite number, on one side or the other
      cases negative with
      | false =>
        show -(low.units : Int) ≤ (unitsLimit : Int) ∧ (unitsLimit : Int) ≤ high.units → _
        omega
      | true =>
        show -(low.units : Int) ≤ -(unitsLimit : Int) ∧ -(unitsLimit : Int) ≤ high.units → _
        omega

/-- The hundredfold of one is not rounded. -/
theorem roundUnits_hundred : roundUnits (100 * unitsOfOne) 1 = 100 * unitsOfOne := by
  have hrounded := roundUnits_of_aligned 1 Nat.one_pos (aligned_whole (n := 100) (by decide))
  rwa [Nat.one_mul] at hrounded

theorem eq_of_value {p q : Percent} (h : p.value = q.value) : p = q := by
  cases p
  cases q
  cases h
  rfl

/-- What is let in beyond an end of the fractions has the percentage of that end. -/
theorem percent_beyond {x : Binary64} {p : Percent} (h : ofFraction x = .ok p) :
    x.isFraction = true ∨ (x ≤ .zero ∧ p = zero) ∨ (.one ≤ x ∧ p = full) := by
  have hpos := unitsOfOne_pos
  cases x with
  | finite negative m =>
    obtain ⟨-, hvalue⟩ := ofFraction_finite_eq_ok.1 h
    generalize hn : (2 * roundUnits (100 * m.units) 1 + unitsOfOne) / (2 * unitsOfOne) = n at hvalue
    have hp := p.value_le
    cases negative with
    | false =>
      rw [signed, if_neg Bool.false_ne_true] at hvalue
      by_cases hm : m.units ≤ unitsOfOne
      · left
        exact (Binary64.isFraction_iff _).2 ⟨false, m, rfl, hm, by simp⟩
      · right; right
        -- from one on the rounded hundredfold is at least a hundred
        have hmono := roundUnits_mono Nat.one_pos
          (Nat.mul_le_mul_left 100 (Nat.le_of_lt (Nat.lt_of_not_le hm)))
        rw [roundUnits_hundred] at hmono
        have hle : 100 ≤ n := by
          rw [← hn, Nat.le_div_iff_mul_le (by omega)]
          omega
        refine ⟨?_, eq_of_value (show p.value = 100 by omega)⟩
        show (unitsOfOne : Int) ≤ (m.units : Int)
        omega
    | true =>
      rw [signed, if_pos rfl] at hvalue
      right; left
      refine ⟨?_, eq_of_value (show p.value = 0 by omega)⟩
      show -(m.units : Int) ≤ 0
      omega
  | _ => exact absurd (isFinite_of_ofFraction h) Bool.false_ne_true

/-- **Which operands have a percentage.** It is those from the last double above -0.005 to the double
that is written 1.005. All fractions are among them. A number that is none is taken for the end of
the fractions that it lies beyond, and every number outside is refused with its hundredfold. -/
theorem ofFraction_accepts (x : Binary64) :
    ((∃ p, ofFraction x = .ok p) ↔ leastOperand ≤ x ∧ x ≤ greatestOperand) ∧
      (x.isFraction = true → ∃ p, ofFraction x = .ok p) ∧
      (∀ p, ofFraction x = .ok p →
        x.isFraction = true ∨ (x ≤ .zero ∧ p = zero) ∨ (.one ≤ x ∧ p = full)) ∧
      ∀ cause, ofFraction x = .error cause → cause = .invalidPercent (.number x.hundredfold) := by
  refine ⟨exists_ofFraction_iff_range x, exists_ofFraction, fun p => percent_beyond, ?_⟩
  intro cause h
  unfold ofFraction at h
  split at h
  · exact absurd h (by simp)
  · exact (Except.error.inj h).symm

/-- Two operands are let in that are no fractions: 1.004 as a hundred percent, and -0.004 as none. -/
theorem ofFraction_beyond_fractions :
    ofFraction (Decimal.toBinary64 ⟨false, 1004, -3⟩) = .ok full ∧
      (Decimal.toBinary64 ⟨false, 1004, -3⟩).isFraction = false ∧
      ofFraction (Decimal.toBinary64 ⟨true, 4, -3⟩) = .ok zero ∧
      (Decimal.toBinary64 ⟨true, 4, -3⟩).isFraction = false := by
  refine ⟨ofFraction_of_nearest ?_, ?_, ofFraction_of_nearest ?_, ?_⟩
  · decide +kernel
  · decide +kernel
  · decide +kernel
  · decide +kernel

end Percent

end StagedRollout
