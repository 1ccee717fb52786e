/-
# StagedRollout.Proofs.Number.Rounding -- what rounding a quotient does not change

`roundUnits` sees a quotient, not the pair of numbers that spells it (`roundUnits_mul`), leaves
the count of a double as it is (`roundUnits_of_aligned`), and moves any other count by at most one
place of its 53 bits (`roundUnits_le`, `le_roundUnits`).
-/
import StagedRollout.Number.Rounding

namespace StagedRollout

/- Powers of natural numbers are the core library's own. -/
attribute [local instance (2000)] instPowNat

theorem unitsOfOne_eq : unitsOfOne = 2 ^ unitDepth := rfl

theorem unitsLimit_eq : unitsLimit = 2 ^ unitSpan := rfl

theorem unitsOfOne_pos : 0 < unitsOfOne := Nat.two_pow_pos _

/-! ## Whole numbers of 53 bits -/

/-- A whole number of 53 bits is in range. -/
theorem whole_lt_unitsLimit {n : Nat} (h : n ≤ 2 ^ (fractionBits + 1)) :
    n * unitsOfOne < unitsLimit := by
  have span : fractionBits + 1 + unitDepth < unitSpan := by decide
  calc n * unitsOfOne ≤ 2 ^ (fractionBits + 1) * unitsOfOne := Nat.mul_le_mul_right _ h
    _ = 2 ^ (fractionBits + 1 + unitDepth) := by rw [unitsOfOne_eq, ← Nat.pow_add]
    _ < unitsLimit := Nat.pow_lt_pow_right (by decide) span

/-- A whole number of 53 bits is a double. -/
theorem aligned_whole {n : Nat} (h : n ≤ 2 ^ (fractionBits + 1)) :
    2 ^ ((n * unitsOfOne).log2 - fractionBits) ∣ n * unitsOfOne :=
  aligned_mul_pow unitDepth h

/-! ## The quotient alone counts -/

/-- Rounding to a whole number looks at the quotient alone. -/
theorem halfEven_mul {k : Nat} (num den : Nat) (pos : 0 < k) :
    halfEven (k * num) (k * den) = halfEven num den := by
  -- twice the rest and the divisor grow alike, so they compare as before
  have lower : 2 * (k * num % (k * den)) < k * den ↔ 2 * (num % den) < den := by
    rw [Nat.mul_mod_mul_left, Nat.mul_left_comm]
    exact Nat.mul_lt_mul_left pos
  have upper : k * den < 2 * (k * num % (k * den)) ↔ den < 2 * (num % den) := by
    rw [Nat.mul_mod_mul_left, Nat.mul_left_comm]
    exact Nat.mul_lt_mul_left pos
  simp only [halfEven, Nat.mul_div_mul_left _ _ pos, lower, upper]

/-- A common factor of both numbers does not show in the rounded quotient. -/
theorem roundUnits_mul {k : Nat} (num den : Nat) (pos : 0 < k) :
    roundUnits (k * num) (k * den) = roundUnits num den := by
  simp only [roundUnits, Nat.mul_div_mul_left _ _ pos, Nat.mul_assoc, halfEven_mul _ _ pos]

/-! ## How far rounding moves -/

theorem roundUnits_zero (den : Nat) : roundUnits 0 den = 0 := by
  simp [roundUnits, halfEven, Nat.log2_zero]

/-- Rounding goes up by one step at most, where a step is the last of the bits that are kept. -/
theorem roundUnits_le (num den : Nat) :
    roundUnits num den ≤ num / den + 2 ^ ((num / den).log2 - fractionBits) := by
  show halfEven num (den * 2 ^ ((num / den).log2 - fractionBits)) * _ ≤ _
  have step := halfEven_le num (den * 2 ^ ((num / den).log2 - fractionBits))
  rw [← Nat.div_div_eq_div_mul] at step
  refine Nat.le_trans (Nat.mul_le_mul_right _ step) ?_
  rw [Nat.add_mul, Nat.one_mul]
  exact Nat.add_le_add_right (Nat.div_mul_le_self _ _) _

/-- It goes down by one step at most. -/
theorem le_roundUnits (num den : Nat) :
    num / den ≤ roundUnits num den + 2 ^ ((num / den).log2 - fractionBits) := by
  show _ ≤ halfEven num (den * 2 ^ ((num / den).log2 - fractionBits)) * _ + _
  have step := le_halfEven num (den * 2 ^ ((num / den).log2 - fractionBits))
  rw [← Nat.div_div_eq_div_mul] at step
  have floor := Nat.lt_div_mul_add (a := num / den)
    (Nat.two_pow_pos ((num / den).log2 - fractionBits))
  exact Nat.le_of_lt (Nat.lt_of_lt_of_le floor
    (Nat.add_le_add_right (Nat.mul_le_mul_right _ step) _))

/-- The count of a double stays what it is. -/
theorem roundUnits_of_aligned {q : Nat} (den : Nat) (pos : 0 < den)
    (aligned : 2 ^ (q.log2 - fractionBits) ∣ q) : roundUnits (den * q) den = q := by
  show halfEven _ (den * 2 ^ ((den * q / den).log2 - fractionBits)) * _ = _
  rw [Nat.mul_div_cancel_left _ pos,
    halfEven_of_dvd (Nat.mul_pos pos (Nat.two_pow_pos _)) (Nat.mul_dvd_mul_left _ aligned),
    Nat.mul_div_mul_left _ _ pos, Nat.div_mul_cancel aligned]

namespace Binary64

/-- The number of a quotient does not depend on how the quotient is given. -/
theorem ofRatio_mul {k : Nat} (negative : Bool) (num den : Nat) (pos : 0 < k) :
    ofRatio negative (k * num) (k * den) = ofRatio negative num den := by
  simp only [ofRatio, roundUnits_mul _ _ pos]

/-- A count of units that is a double's own, however its quotient is spelled. -/
theorem ofRatio_units (negative : Bool) (m : Magnitude) {den : Nat} (pos : 0 < den) :
    ofRatio negative (den * m.units) den = .finite negative m := by
  have same := roundUnits_of_aligned den pos m.aligned
  simp only [ofRatio, same, m.bounded, dif_pos]

end Binary64

end StagedRollout
