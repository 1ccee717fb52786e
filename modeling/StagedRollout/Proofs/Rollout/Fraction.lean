/-
# StagedRollout.Proofs.Rollout.Fraction -- percentages and the fractions stored for them

A percentage is stored as a fraction and comes back from it as it was
(`Percent.ofFraction_fraction`), and every fraction between zero and one has a percentage
(`Percent.exists_ofFraction`). The latter needs a bound only: rounding a hundredfold adds less
than a half to it.
-/
import StagedRollout.Proofs.Number.Rounding
import StagedRollout.Rollout.Edit

namespace StagedRollout

/- Powers of natural numbers are the core library's own, and the large ones stay folded. -/
attribute [local instance (2000)] instPowNat
attribute [local irreducible] unitsOfOne unitsLimit

/-! ## Fractions by their counts -/

/-- A sign shows on nothing but a positive size. -/
theorem signed_eq_self {negative : Bool} {n : Nat} (h : negative = true → n = 0) :
    signed negative n = n := by
  cases negative with
  | false => rfl
  | true => rw [h rfl]; rfl

namespace Binary64

theorem place?_zero : zero.place? = some 0 := rfl

theorem place?_one : one.place? = some (unitsOfOne : Int) := rfl

/-- The numbers from zero to one by their counts. Negative zero is among them. -/
theorem isFraction_iff (x : Binary64) :
    x.isFraction = true ↔
      ∃ negative m, x = .finite negative m ∧ m.units ≤ unitsOfOne ∧
        (negative = true → m.units = 0) := by
  have placed : x.isFraction = true ↔
      PlacedLE (some 0) x.place? ∧ PlacedLE x.place? (some unitsOfOne) := by
    rw [isFraction, Bool.and_eq_true, decide_eq_true_eq, decide_eq_true_eq, ← place?_zero,
      ← place?_one]
    exact Iff.rfl
  rw [placed]
  cases x with
  | nan => simp [place?, PlacedLE]
  | infinite negative =>
    have far : unitsOfOne < unitsLimit := Magnitude.one.bounded
    have pos : unitsLimit ≠ 0 := by omega
    cases negative with
    | false => simp [place?, PlacedLE, signed, far]
    | true => simp [place?, PlacedLE, signed, pos]
  | finite negative m =>
    cases negative with
    | false => simp [place?, PlacedLE, signed]
    | true =>
      simp [place?, PlacedLE, signed]
      omega

end Binary64

/-! ## How far rounding moves a fraction -/

/-- One place of the 53 bits of a number below 128, which is far less than a thousandth. -/
def gain : Nat := 2 ^ (unitDepth + 7 - fractionBits)

theorem gain_lt : 1000 * gain < unitsOfOne := by
  rw [gain, unitsOfOne]
  decide +kernel

theorem gain_pos : 0 < gain := Nat.two_pow_pos _

attribute [local irreducible] gain

/-- The leading bit of a number below 128. -/
theorem log2_lt_of_small {q : Nat} (small : q < 128 * unitsOfOne) : q.log2 < unitDepth + 7 := by
  have size : 128 * unitsOfOne = 2 ^ (unitDepth + 7) := by
    rw [unitsOfOne_eq]
    decide +kernel
  rcases Nat.eq_zero_or_pos q with zero | pos
  · rw [zero]
    decide
  · exact (Nat.log2_lt (Nat.ne_of_gt pos)).2 (size ▸ small)

/-- Rounding a number below 128 moves it by less than a thousandth. -/
theorem roundUnits_near {num den : Nat} (small : num / den < 128 * unitsOfOne) :
    num / den ≤ roundUnits num den + gain ∧ roundUnits num den ≤ num / den + gain := by
  have place : 2 ^ ((num / den).log2 - fractionBits) ≤ gain := by
    have := log2_lt_of_small small
    unfold gain
    exact Nat.pow_le_pow_right (by decide) (by omega)
  have lower := le_roundUnits num den
  have upper := roundUnits_le num den
  omega

/-- The integer nearest to a number is at most `n` if the number is less than a half above it. -/
theorem nearest_lt_iff {units n : Nat} :
    (2 * units + unitsOfOne) / (2 * unitsOfOne) < n + 1 ↔ 2 * units < (2 * n + 1) * unitsOfOne := by
  have pos := unitsOfOne_pos
  have bound : (n + 1) * (2 * unitsOfOne) = (2 * n + 1) * unitsOfOne + unitsOfOne := by
    rw [Nat.add_mul, Nat.add_mul, Nat.mul_left_comm, ← Nat.mul_assoc]
    omega
  rw [Nat.div_lt_iff_lt_mul (by omega), bound]
  omega

namespace Percent

/-! ## The fraction of a percentage -/

/-- The count of a percentage's fraction, within a thousandth. -/
theorem roundUnits_hundredth {n : Nat} (le : n ≤ 100) :
    n * unitsOfOne < 100 * roundUnits (n * unitsOfOne) 100 + 100 * gain + 100 ∧
      100 * roundUnits (n * unitsOfOne) 100 ≤ n * unitsOfOne + 100 * gain := by
  have size : n * unitsOfOne ≤ 100 * unitsOfOne := Nat.mul_le_mul_right _ le
  have small : n * unitsOfOne / 100 < 128 * unitsOfOne := by
    have := gain_lt
    omega
  have near := roundUnits_near small
  omega

theorem hundredths_eq {n : Nat} (le : n ≤ 100) :
    ∃ m : Magnitude, Binary64.hundredths n = .finite false m ∧
      m.units = roundUnits (n * unitsOfOne) 100 := by
  have far : 201 * unitsOfOne < unitsLimit := whole_lt_unitsLimit (by decide)
  have size : n * unitsOfOne ≤ 100 * unitsOfOne := Nat.mul_le_mul_right _ le
  have near := roundUnits_hundredth le
  have slack := gain_lt
  have inside : roundUnits (n * unitsOfOne) 100 < unitsLimit := by omega
  refine ⟨⟨_, aligned_roundUnits _ _, inside⟩, ?_, rfl⟩
  rw [Binary64.hundredths, Binary64.ofRatio, dif_pos inside]

theorem isFraction_fraction (p : Percent) : p.fraction.isFraction = true := by
  obtain ⟨n, le⟩ := p
  obtain ⟨m, whole, units⟩ := hundredths_eq le
  refine (Binary64.isFraction_iff _).2 ⟨false, m, whole, ?_, by simp⟩
  rw [units]
  rcases Nat.lt_or_eq_of_le le with lt | rfl
  · have near := roundUnits_hundredth le
    have slack := gain_lt
    have size : n * unitsOfOne ≤ 99 * unitsOfOne := Nat.mul_le_mul_right _ (by omega)
    omega
  · -- one hundred percent is exact
    exact Nat.le_of_eq (roundUnits_of_aligned 100 (by decide) Magnitude.one.aligned)

theorem nearestInt?_hundredfold_fraction (p : Percent) :
    p.fraction.hundredfold.nearestInt? = some (p.value : Int) := by
  obtain ⟨n, le⟩ := p
  obtain ⟨m, whole, units⟩ := hundredths_eq le
  have far : 201 * unitsOfOne < unitsLimit := whole_lt_unitsLimit (by decide)
  have size : n * unitsOfOne ≤ 100 * unitsOfOne := Nat.mul_le_mul_right _ le
  have near := roundUnits_hundredth le
  have slack := gain_lt
  have pos := gain_pos
  rw [← units] at near
  have small : 100 * m.units / 1 < 128 * unitsOfOne := by
    rw [Nat.div_one]
    omega
  have near' := roundUnits_near small
  rw [Nat.div_one] at near'
  have inside : roundUnits (100 * m.units) 1 < unitsLimit := by omega
  -- twice the rounded hundredfold is less than one away from twice the percentage
  have nearest : (2 * roundUnits (100 * m.units) 1 + unitsOfOne) / (2 * unitsOfOne) = n := by
    have double : n * (2 * unitsOfOne) = 2 * (n * unitsOfOne) := Nat.mul_left_comm _ _ _
    refine Nat.div_eq_of_lt_le ?_ ?_
    · rw [double]
      omega
    · rw [Nat.add_mul, double]
      omega
  rw [fraction, whole, Binary64.hundredfold, Binary64.ofRatio, dif_pos inside,
    Binary64.nearestInt?]
  show some (signed false _) = some (n : Int)
  rw [← nearest]
  rfl

theorem ofFraction_of_nearest {x : Binary64} {p : Percent}
    (nearest : x.hundredfold.nearestInt? = some (p.value : Int)) : ofFraction x = .ok p := by
  have range : (0 : Int) ≤ p.value ∧ (p.value : Int) ≤ 100 := by
    have := p.value_le
    omega
  have whole : ofInt? p.value = some p := by simp [ofInt?, range]
  rw [ofFraction, nearest]
  simp only [Option.bind_eq_bind, Option.bind_some, whole]

/-- A percentage comes back from the fraction that is stored for it. -/
theorem ofFraction_fraction (p : Percent) : ofFraction p.fraction = .ok p :=
  ofFraction_of_nearest (nearestInt?_hundredfold_fraction p)

/-! ## The percentage of a fraction -/

/-- A hundredfold of at most a hundred ones gains less than a half by rounding. -/
theorem roundUnits_hundredfold {units : Nat} (le : units ≤ unitsOfOne) :
    2 * roundUnits (100 * units) 1 < 201 * unitsOfOne := by
  have slack := gain_lt
  have small : 100 * units / 1 < 128 * unitsOfOne := by
    have one_pos : 0 < unitsOfOne := by omega
    rw [Nat.div_one]
    omega
  have near := (roundUnits_near small).2
  rw [Nat.div_one] at near
  omega

/-- Every number from zero to one has a percentage. -/
theorem exists_ofFraction {x : Binary64} (h : x.isFraction = true) :
    ∃ p, ofFraction x = .ok p := by
  obtain ⟨negative, m, rfl, le, signless⟩ := (Binary64.isFraction_iff x).1 h
  have bound := roundUnits_hundredfold le
  have inside : roundUnits (100 * m.units) 1 < unitsLimit := by
    have far : 201 * unitsOfOne < unitsLimit := whole_lt_unitsLimit (by decide)
    omega
  have one_pos := unitsOfOne_pos
  have percent : (2 * roundUnits (100 * m.units) 1 + unitsOfOne) / (2 * unitsOfOne) ≤ 100 :=
    Nat.le_of_lt_succ (nearest_lt_iff.2 bound)
  refine ⟨⟨_, percent⟩, ofFraction_of_nearest ?_⟩
  rw [Binary64.hundredfold, Binary64.ofRatio, dif_pos inside, Binary64.nearestInt?]
  refine congrArg some (signed_eq_self fun minus => ?_)
  have nothing : roundUnits (100 * m.units) 1 = 0 := by
    rw [signless minus, Nat.mul_zero, roundUnits_zero]
  apply Nat.div_eq_of_lt
  show 2 * roundUnits (100 * m.units) 1 + unitsOfOne < _
  omega

end Percent

end StagedRollout
