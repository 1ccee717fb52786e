/-
# StagedRollout.Proofs.Number.DecimalValue -- the exact value of a decimal and its double

A decimal has an exact value, and so has every finite double. `Decimal.toBinary64` takes short cuts
by the size of the exponent, but none of them shows: the outcome is always the rounded quotient
(`Decimal.toBinary64_eq`). So it is the double nearest to the exact value, if it is finite
(`Decimal.toBinary64_nearest`).
-/
import Mathlib.Algebra.Order.Field.Basic
import Mathlib.Algebra.Order.AbsoluteValue.Basic
import Mathlib.Data.Rat.Cast.Order
import Mathlib.Tactic.Linarith
import Mathlib.Tactic.FieldSimp
import Mathlib.Tactic.Ring
import Mathlib.Tactic.Positivity
import StagedRollout.Number.Decimal
import StagedRollout.Proofs.Number.Nearest

namespace StagedRollout

/- Powers of natural numbers are the core library's own, and the large ones stay folded. -/
attribute [local instance (2000)] instPowNat
attribute [local irreducible] unitsOfOne unitsLimit

/-! ## Exact values -/

/-- The size of a decimal. -/
def Decimal.size (d : Decimal) : ℚ := d.coefficient * (10 : ℚ) ^ d.exponent

/-- The exact value of a decimal. -/
def Decimal.value (d : Decimal) : ℚ := if d.negative then -d.size else d.size

/-- The exact value of a finite double. -/
def Binary64.value? : Binary64 → Option ℚ
  | .finite negative m => some ((signed negative m.units : ℚ) / unitsOfOne)
  | _ => none

namespace Decimal

theorem unitRatio_den_pos (d : Decimal) : 0 < d.unitRatio.2 := by
  unfold unitRatio
  split
  · exact Nat.one_pos
  · exact Nat.pow_pos (by decide)

/-- The quotient of a decimal is its size in units. -/
theorem unitRatio_eq_size (d : Decimal) :
    (d.unitRatio.1 : ℚ) / d.unitRatio.2 = d.size * unitsOfOne := by
  unfold unitRatio size
  split
  · next e he =>
    rw [he]
    push_cast
    rw [Int.ofNat_eq_natCast, zpow_natCast, div_one]
  · next e he =>
    rw [he, zpow_negSucc]
    push_cast
    ring

/-! ## The short cuts -/

theorem ofRatio_of_zero {num den : Nat} (h : roundUnits num den = 0) (negative : Bool) :
    Binary64.ofRatio negative num den = .finite negative .zero := by
  simp only [Binary64.ofRatio, h]
  exact dif_pos Magnitude.zero.bounded

/-- Less than half a unit is rounded to nothing. -/
theorem roundUnits_eq_zero {num den : Nat} (h : 2 * num < den) : roundUnits num den = 0 := by
  have hquotient : num / den = 0 := Nat.div_eq_of_lt (by omega)
  have hrest : num % den = num := Nat.mod_eq_of_lt (by omega)
  simp only [roundUnits, hquotient, Nat.log2_zero, Nat.zero_sub, Nat.pow_zero, Nat.mul_one]
  rw [halfEven, hrest, if_pos h, hquotient]

/-- What is out of range stays so when it is rounded. -/
theorem unitsLimit_le_roundUnits {num : Nat} (h : unitsLimit ≤ num) :
    unitsLimit ≤ roundUnits num 1 := by
  have haligned : 2 ^ (unitsLimit.log2 - fractionBits) ∣ unitsLimit := by
    rw [unitsLimit_eq, Nat.log2_two_pow]
    exact Nat.pow_dvd_pow 2 (Nat.sub_le _ _)
  have hrounded := roundUnits_of_aligned 1 Nat.one_pos haligned
  rw [Nat.one_mul] at hrounded
  calc unitsLimit = roundUnits unitsLimit 1 := hrounded.symm
    _ ≤ roundUnits num 1 := roundUnits_mono Nat.one_pos h

theorem le_decisive : 2 * unitsOfOne ≤ 10 ^ decisiveExponent := by
  decide +kernel

/-- A power of ten above the decisive one makes every positive integer too large. -/
theorem unitsLimit_le_of_exponent {coefficient e : Nat} (hpos : coefficient ≠ 0)
    (he : decisiveExponent < e) : unitsLimit ≤ coefficient * 10 ^ e * unitsOfOne := by
  have hspan : unitSpan ≤ unitDepth + unitDepth := by decide
  have hdecisive := le_decisive
  calc unitsLimit ≤ unitsOfOne * unitsOfOne := by
        rw [unitsLimit_eq, unitsOfOne_eq, ← Nat.pow_add]
        exact Nat.pow_le_pow_right (by decide) hspan
    _ ≤ 10 ^ decisiveExponent * unitsOfOne := Nat.mul_le_mul_right _ (by omega)
    _ ≤ 10 ^ e * unitsOfOne :=
      Nat.mul_le_mul_right _ (Nat.pow_le_pow_right (by decide) (Nat.le_of_lt he))
    _ ≤ coefficient * 10 ^ e * unitsOfOne :=
      Nat.mul_le_mul_right _ (Nat.le_mul_of_pos_left _ (Nat.pos_of_ne_zero hpos))

/-- Below the inverse of the decisive power of ten there is less than half a unit. -/
theorem double_lt_of_exponent {coefficient e : Nat}
    (he : decisiveExponent + (coefficient.log2 + 1) < e) :
    2 * (coefficient * unitsOfOne) < 10 ^ e := by
  have hpos := unitsOfOne_pos
  calc 2 * (coefficient * unitsOfOne) = coefficient * (2 * unitsOfOne) := Nat.mul_left_comm _ _ _
    _ < 2 ^ (coefficient.log2 + 1) * (2 * unitsOfOne) :=
      Nat.mul_lt_mul_of_pos_right Nat.lt_log2_self (by omega)
    _ ≤ 10 ^ (coefficient.log2 + 1) * 10 ^ decisiveExponent :=
      Nat.mul_le_mul (Nat.pow_le_pow_left (by decide) _) le_decisive
    _ = 10 ^ (coefficient.log2 + 1 + decisiveExponent) := (Nat.pow_add _ _ _).symm
    _ ≤ 10 ^ e := Nat.pow_le_pow_right (by decide) (by omega)

/-- **The short cuts by the exponent do not show.** The outcome is always the rounded quotient. -/
theorem toBinary64_eq (d : Decimal) :
    d.toBinary64 = Binary64.ofRatio d.negative d.unitRatio.1 d.unitRatio.2 := by
  obtain ⟨negative, coefficient, exponent⟩ := d
  unfold toBinary64
  by_cases hzero : coefficient = 0
  · subst hzero
    rw [if_pos rfl]
    have hratio : (unitRatio ⟨negative, 0, exponent⟩).1 = 0 := by
      cases exponent <;> simp [unitRatio]
    rw [hratio, ofRatio_of_zero (roundUnits_zero _)]
  rw [if_neg hzero]
  split
  · next hhigh =>
    simp only at hhigh
    cases exponent with
    | negSucc e => omega
    | ofNat e =>
      have hlarge := unitsLimit_le_of_exponent hzero (Int.ofNat_lt.1 hhigh)
      show _ = Binary64.ofRatio negative (coefficient * 10 ^ e * unitsOfOne) 1
      rw [Binary64.ofRatio, dif_neg (Nat.not_lt.2 (unitsLimit_le_roundUnits hlarge))]
  · split
    · next hlow =>
      simp only at hlow
      cases exponent with
      | ofNat e =>
        rw [Int.ofNat_eq_natCast] at hlow
        omega
      | negSucc e =>
        have hsmall : 2 * (coefficient * unitsOfOne) < 10 ^ (e + 1) :=
          double_lt_of_exponent (by omega)
        exact (ofRatio_of_zero (roundUnits_eq_zero hsmall) negative).symm
    · rfl

end Decimal

/-! ## Distances -/

/-- No finite double is nearer to a number. -/
def NoneNearer (x v : ℚ) : Prop :=
  ∀ (b : Binary64) (y : ℚ), b.value? = some y → |v - x| ≤ |v - y|

theorem cast_dist (a b : Nat) : (Nat.dist a b : ℚ) = |(a : ℚ) - b| := by
  rcases Nat.le_total a b with h | h
  · have hle : (a : ℚ) ≤ b := Nat.cast_le.2 h
    rw [Nat.dist_eq_sub_of_le h, Nat.cast_sub h, abs_sub_comm, abs_of_nonneg (sub_nonneg.2 hle)]
  · have hle : (b : ℚ) ≤ a := Nat.cast_le.2 h
    rw [Nat.dist_comm, Nat.dist_eq_sub_of_le h, Nat.cast_sub h, abs_of_nonneg (sub_nonneg.2 hle)]

/-- The distance of a quotient of units from a count of them. -/
theorem abs_sub_count (num n : Nat) {den : Nat} (pos : 0 < den) :
    |(num : ℚ) / den / unitsOfOne - (n : ℚ) / unitsOfOne| =
      (Nat.dist num (n * den) : ℚ) / (den * unitsOfOne) := by
  have hden : (0 : ℚ) < den := Nat.cast_pos.2 pos
  have hunit : (0 : ℚ) < unitsOfOne := Nat.cast_pos.2 unitsOfOne_pos
  have hquotient : (num : ℚ) / den / unitsOfOne - (n : ℚ) / unitsOfOne =
      ((num : ℚ) - (n * den : Nat)) / (den * unitsOfOne) := by
    push_cast
    field_simp
  rw [hquotient, abs_div, abs_of_pos (mul_pos hden hunit), cast_dist]

/-- For a quotient that is not negative, the doubles that are not negative decide. -/
theorem noneNearer_iff {num den n : Nat} (pos : 0 < den) :
    NoneNearer ((n : ℚ) / unitsOfOne) ((num : ℚ) / den / unitsOfOne) ↔
      ∀ m : Magnitude, Nat.dist num (n * den) ≤ Nat.dist num (m.units * den) := by
  have hden : (0 : ℚ) < den := Nat.cast_pos.2 pos
  have hunit : (0 : ℚ) < unitsOfOne := Nat.cast_pos.2 unitsOfOne_pos
  have hcounts : ∀ m : Magnitude,
      |(num : ℚ) / den / unitsOfOne - (n : ℚ) / unitsOfOne| ≤
          |(num : ℚ) / den / unitsOfOne - (m.units : ℚ) / unitsOfOne| ↔
        Nat.dist num (n * den) ≤ Nat.dist num (m.units * den) := by
    intro m
    rw [abs_sub_count num n pos, abs_sub_count num m.units pos,
      div_le_div_iff_of_pos_right (mul_pos hden hunit), Nat.cast_le]
  constructor
  · intro h m
    exact (hcounts m).1 (h (.finite false m) _ rfl)
  · intro h b y hy
    cases b with
    | finite negative m =>
      obtain rfl := Option.some.inj hy
      cases negative with
      | false => exact (hcounts m).2 (h m)
      | true =>
        -- a double below zero is further away than zero
        have hzero := (hcounts .zero).2 (h .zero)
        have hv : (0 : ℚ) ≤ (num : ℚ) / den / unitsOfOne := by positivity
        have hy : (0 : ℚ) ≤ (m.units : ℚ) / unitsOfOne := by positivity
        refine hzero.trans ?_
        show |_ - ((0 : Nat) : ℚ) / unitsOfOne| ≤ |_ - ((-(m.units : Int) : Int) : ℚ) / unitsOfOne|
        push_cast
        rw [zero_div, sub_zero, abs_of_nonneg hv, neg_div, sub_neg_eq_add,
          abs_of_nonneg (add_nonneg hv hy)]
        linarith
    | nan => exact absurd hy (by simp [Binary64.value?])
    | infinite negative => exact absurd hy (by simp [Binary64.value?])

/-- Doubles lie alike on both sides of zero. -/
theorem NoneNearer.neg {x v : ℚ} (h : NoneNearer x v) : NoneNearer (-x) (-v) := by
  intro b y hy
  cases b with
  | finite negative m =>
    obtain rfl := Option.some.inj hy
    have hopposite := h (.finite (!negative) m) _ rfl
    have hsigned : (signed (!negative) m.units : ℚ) = -(signed negative m.units : ℚ) := by
      cases negative <;> simp [signed]
    rw [hsigned, neg_div, sub_neg_eq_add] at hopposite
    rw [neg_sub_neg, abs_sub_comm, ← abs_neg (-v - _), neg_sub, sub_neg_eq_add, add_comm]
    exact hopposite
  | nan => exact absurd hy (by simp [Binary64.value?])
  | infinite negative => exact absurd hy (by simp [Binary64.value?])

/-- **Rounding a signed quotient goes to a nearest double**, if it does not leave their range. -/
theorem Binary64.ofRatio_nearest {negative : Bool} {num den : Nat} {x : ℚ} (pos : 0 < den)
    (h : (ofRatio negative num den).value? = some x) :
    NoneNearer x (if negative then -((num : ℚ) / den / unitsOfOne)
      else (num : ℚ) / den / unitsOfOne) := by
  have hnearest : NoneNearer ((roundUnits num den : ℚ) / unitsOfOne)
      ((num : ℚ) / den / unitsOfOne) :=
    (noneNearer_iff pos).2 fun m => roundUnits_nearest _ pos m.aligned
  rw [ofRatio] at h
  split at h
  · obtain rfl := Option.some.inj h
    cases negative with
    | false => exact hnearest
    | true =>
      show NoneNearer ((-(roundUnits num den : Int) : Int) / unitsOfOne) _
      rw [Int.cast_neg, Int.cast_natCast, neg_div]
      exact hnearest.neg
  · exact absurd h (by simp [value?])

namespace Decimal

theorem size_eq (d : Decimal) : d.size = (d.unitRatio.1 : ℚ) / d.unitRatio.2 / unitsOfOne := by
  have hunit : (unitsOfOne : ℚ) ≠ 0 := Nat.cast_ne_zero.2 (Nat.ne_of_gt unitsOfOne_pos)
  rw [unitRatio_eq_size, mul_div_cancel_right₀ _ hunit]

theorem size_nonneg (d : Decimal) : 0 ≤ d.size := by
  rw [size_eq]
  positivity

/-- **The double of a decimal is the nearest one.** -/
theorem toBinary64_nearest {d : Decimal} {x : ℚ} (h : d.toBinary64.value? = some x) :
    NoneNearer x d.value := by
  rw [toBinary64_eq] at h
  rw [value, size_eq]
  exact Binary64.ofRatio_nearest d.unitRatio_den_pos h

end Decimal

end StagedRollout
