/-
# StagedRollout.Proofs.Rollout.PercentOrder -- the order of operands and their percentages

The percentage of an operand is rounded twice: the hundredfold becomes a double, and the double a
whole number. The first rounding goes to a nearest double (`Binary64.hundredfold_nearest`) and the
second to a whole number at most a half away (`Percent.ofFraction_near`). Each of them keeps the
order of what it rounds, so a greater operand never has a smaller percentage, fraction or not
(`Percent.ofFraction_mono`).
-/
import StagedRollout.Proofs.Number.DecimalValue
import StagedRollout.Proofs.Rollout.OperandRange

namespace StagedRollout

/- Powers of natural numbers are the core library's own, and the large ones stay folded. -/
attribute [local instance (2000)] instPowNat
attribute [local irreducible] unitsOfOne unitsLimit

/-! ## Order -/

/-- What keeps the order of sizes, and zero, keeps the order of signed sizes. -/
theorem signed_le_signed {f : Nat → Nat} (hmono : ∀ {a b}, a ≤ b → f a ≤ f b) (hzero : f 0 = 0)
    {negative negative' : Bool} {a b : Nat} (h : signed negative a ≤ signed negative' b) :
    signed negative (f a) ≤ signed negative' (f b) := by
  cases negative <;> cases negative' <;> simp only [signed, Bool.false_eq_true, if_true, if_false] at *
  · exact Int.ofNat_le.2 (hmono (Int.ofNat_le.1 h))
  · -- a number that is not negative is at most one that is not positive only at zero
    obtain rfl : a = 0 := by omega
    obtain rfl : b = 0 := by omega
    rw [hzero]
    omega
  · omega
  · have hsizes := hmono (show b ≤ a by omega)
    omega

namespace Percent

/-- The whole number nearest to the rounded hundredfold of a size. -/
def count (units : Nat) : Nat := (2 * roundUnits (100 * units) 1 + unitsOfOne) / (2 * unitsOfOne)

theorem count_mono {a b : Nat} (h : a ≤ b) : count a ≤ count b := by
  have hrounded := roundUnits_mono Nat.one_pos (Nat.mul_le_mul_left 100 h)
  apply Nat.div_le_div_right
  omega

theorem count_zero : count 0 = 0 := by
  have hpos := unitsOfOne_pos
  rw [count, Nat.mul_zero, roundUnits_zero]
  exact Nat.div_eq_of_lt (by omega)

/-- **A greater operand has no smaller percentage**, as far as both have one. -/
theorem ofFraction_mono {x y : Binary64} {p q : Percent} (hx : ofFraction x = .ok p)
    (hy : ofFraction y = .ok q) (h : x ≤ y) : p ≤ q := by
  have hxfinite := isFinite_of_ofFraction hx
  have hyfinite := isFinite_of_ofFraction hy
  cases x with
  | finite negative m =>
    cases y with
    | finite negative' n =>
      have hp : signed negative (count m.units) = p.value := (ofFraction_finite_eq_ok.1 hx).2
      have hq : signed negative' (count n.units) = q.value := (ofFraction_finite_eq_ok.1 hy).2
      have hplaces : signed negative m.units ≤ signed negative' n.units := h
      have hcounts := signed_le_signed count_mono count_zero hplaces
      rw [hp, hq] at hcounts
      exact Int.ofNat_le.1 hcounts
    | _ => exact absurd hyfinite Bool.false_ne_true
  | _ => exact absurd hxfinite Bool.false_ne_true

end Percent

/-! ## Nearness -/

/-- A quotient is at most a half away from the whole number to which it is rounded. -/
theorem abs_round_sub_le (num : Nat) {den : Nat} (pos : 0 < den) :
    |(((2 * num + den) / (2 * den) : Nat) : ℚ) - (num : ℚ) / den| ≤ 1 / 2 := by
  have hden : (0 : ℚ) < den := Nat.cast_pos.2 pos
  have hdivision := Nat.div_add_mod (2 * num + den) (2 * den)
  have hrest := Nat.mod_lt (2 * num + den) (show 0 < 2 * den by omega)
  generalize (2 * num + den) / (2 * den) = n at hdivision ⊢
  have hbelow : (2 : ℚ) * den * n ≤ 2 * num + den := by
    exact_mod_cast (show 2 * den * n ≤ 2 * num + den by omega)
  have habove : (2 : ℚ) * num ≤ 2 * den * n + den := by
    exact_mod_cast (show 2 * num ≤ 2 * den * n + den by omega)
  have hscaled : (n : ℚ) - (num : ℚ) / den = (2 * den * n - 2 * num) / (2 * den) := by field_simp
  rw [hscaled, abs_div, abs_of_pos (by linarith : (0 : ℚ) < 2 * den), div_le_iff₀ (by linarith),
    abs_le]
  constructor <;> linarith

namespace Binary64

/-- The nearest integer of a number is at most a half away from it. -/
theorem nearestInt?_near {x : Binary64} {i : Int} (h : x.nearestInt? = some i) :
    ∃ v, x.value? = some v ∧ |(i : ℚ) - v| ≤ 1 / 2 := by
  cases x with
  | finite negative m =>
    obtain rfl := Option.some.inj h
    have hnear := abs_round_sub_le m.units unitsOfOne_pos
    refine ⟨_, rfl, ?_⟩
    cases negative with
    | false => exact hnear
    | true =>
      rw [signed, signed, if_pos rfl, if_pos rfl, Int.cast_neg, Int.cast_neg, Int.cast_natCast,
        Int.cast_natCast, neg_div, neg_sub_neg, abs_sub_comm]
      exact hnear
  | _ => exact absurd h (by simp [nearestInt?])

/-- **The hundredfold is a nearest double** to a hundred times the number. -/
theorem hundredfold_nearest {x : Binary64} {v z : ℚ} (hv : x.value? = some v)
    (hz : x.hundredfold.value? = some z) : NoneNearer z (100 * v) := by
  cases x with
  | finite negative m =>
    obtain rfl := Option.some.inj hv
    have hnearest := ofRatio_nearest Nat.one_pos hz
    have hproduct : (100 : ℚ) * ((signed negative m.units : ℚ) / unitsOfOne) =
        if negative then -(((100 * m.units : Nat) : ℚ) / (1 : Nat) / unitsOfOne)
          else ((100 * m.units : Nat) : ℚ) / (1 : Nat) / unitsOfOne := by
      cases negative <;> simp only [signed, Bool.false_eq_true, if_true, if_false] <;>
        push_cast <;> ring
    rw [hproduct]
    exact hnearest
  | _ => exact absurd hv (by simp [value?])

end Binary64

namespace Percent

/-- A percentage is at most a half away from the rounded hundredfold of its operand. -/
theorem ofFraction_near {x : Binary64} {p : Percent} (h : ofFraction x = .ok p) :
    ∃ z, x.hundredfold.value? = some z ∧ |(p.value : ℚ) - z| ≤ 1 / 2 := by
  obtain ⟨z, hz, hnear⟩ := Binary64.nearestInt?_near (ofFraction_eq_ok.1 h)
  rw [Int.cast_natCast] at hnear
  exact ⟨z, hz, hnear⟩

end Percent

end StagedRollout
