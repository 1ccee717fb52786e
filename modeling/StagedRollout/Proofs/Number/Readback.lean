/-
# StagedRollout.Proofs.Number.Readback -- what is written for a double reads back as it

The digits of a double are found by a search whose test is the reader itself, so it is no surprise
that they read back (`Magnitude.toBinary64_shortest`). What has to be shown is that the search may
end where it ends: at the exact value, which no clamp of the reader catches.

Two more ways of writing lead back as well: a whole double as an integer
(`Decimal.toBinary64_whole`), and a decimal with zeros shifted over its point
(`Decimal.toBinary64_shift`). Integers of machine size are in range (`Decimal.isFinite_integer`).
-/
import StagedRollout.Proofs.Number.Rounding
import StagedRollout.Number.Shortest

namespace StagedRollout

/- Powers of natural numbers are the core library's own. -/
attribute [local instance (2000)] instPowNat

/- The unit is never multiplied out. -/
attribute [local irreducible] unitsOfOne unitsLimit

namespace Decimal

/-! ## The clamps of the reader -/

/-- The reader takes the quotient of a decimal unless its exponent decides. -/
theorem toBinary64_eq_ofRatio {d : Decimal} (hcoefficient : d.coefficient ≠ 0)
    (hhigh : d.exponent ≤ decisiveExponent)
    (hlow : -(decisiveExponent + (d.coefficient.log2 + 1) : Int) ≤ d.exponent) :
    d.toBinary64 = Binary64.ofRatio d.negative d.unitRatio.1 d.unitRatio.2 := by
  unfold toBinary64
  rw [if_neg hcoefficient, if_neg (by omega), if_neg (by omega)]

theorem toBinary64_zero (negative : Bool) (exponent : Int) :
    toBinary64 ⟨negative, 0, exponent⟩ = .finite negative .zero := by
  unfold toBinary64
  rw [if_pos rfl]

/-- The sign plays no role for the size. -/
theorem toBinary64_sign {coefficient : Nat} {exponent : Int} {m : Magnitude}
    (h : toBinary64 ⟨false, coefficient, exponent⟩ = .finite false m) (negative : Bool) :
    toBinary64 ⟨negative, coefficient, exponent⟩ = .finite negative m := by
  have hratio : unitRatio ⟨negative, coefficient, exponent⟩ =
      unitRatio ⟨false, coefficient, exponent⟩ := by
    cases exponent <;> rfl
  -- every test of the reader looks at the size alone
  unfold toBinary64 at h ⊢
  rw [hratio]
  by_cases hzero : coefficient = 0
  · rw [if_pos hzero] at h ⊢
    rw [(Binary64.finite.inj h).2]
  rw [if_neg hzero] at h ⊢
  by_cases hhigh : (decisiveExponent : Int) < exponent
  · rw [if_pos hhigh] at h
    exact absurd h (by simp)
  rw [if_neg hhigh] at h ⊢
  by_cases hlow : exponent < -(decisiveExponent + (coefficient.log2 + 1) : Int)
  · rw [if_pos hlow] at h ⊢
    rw [(Binary64.finite.inj h).2]
  rw [if_neg hlow] at h ⊢
  unfold Binary64.ofRatio at h ⊢
  split at h
  · next hlt => rw [dif_pos hlt, (Binary64.finite.inj h).2]
  · exact absurd h (by simp)

/-! ## Zeros over the point -/

/-- Zeros that are moved over the point change nothing. -/
theorem toBinary64_shift (negative : Bool) (coefficient : Nat) {zeros : Nat}
    (hzeros : zeros ≤ decisiveExponent) :
    toBinary64 ⟨negative, coefficient * 10 ^ (zeros + 1), -1⟩ =
      toBinary64 ⟨negative, coefficient, zeros⟩ := by
  by_cases hzero : coefficient = 0
  · subst hzero
    rw [Nat.zero_mul, toBinary64_zero, toBinary64_zero]
  -- neither exponent decides, so both sides round a quotient
  have hpos : coefficient * 10 ^ (zeros + 1) ≠ 0 :=
    Nat.mul_ne_zero hzero (Nat.ne_of_gt (Nat.pow_pos (by decide)))
  rw [toBinary64_eq_ofRatio hpos (by simp only; omega) (by simp only; omega),
    toBinary64_eq_ofRatio hzero (by simp only; omega) (by simp only; omega)]
  show Binary64.ofRatio negative (coefficient * 10 ^ (zeros + 1) * unitsOfOne) (10 ^ (0 + 1)) =
    Binary64.ofRatio negative (coefficient * 10 ^ zeros * unitsOfOne) 1
  have hnum : coefficient * 10 ^ (zeros + 1) * unitsOfOne =
      10 * (coefficient * 10 ^ zeros * unitsOfOne) := by
    rw [Nat.pow_succ, ← Nat.mul_assoc, Nat.mul_comm _ 10, Nat.mul_assoc, Nat.mul_assoc]
  rw [hnum]
  exact Binary64.ofRatio_mul (k := 10) negative _ 1 (by decide)

/-! ## Whole numbers -/

/-- A double that is whole is read off the integer that it is equal to. -/
theorem toBinary64_whole (negative : Bool) {m : Magnitude} (h : m.units % unitsOfOne = 0) :
    toBinary64 ⟨negative, m.units / unitsOfOne, 0⟩ = .finite negative m := by
  have hunits : m.units / unitsOfOne * unitsOfOne = m.units :=
    Nat.div_mul_cancel (Nat.dvd_of_mod_eq_zero h)
  by_cases hzero : m.units / unitsOfOne = 0
  · have hm : m = .zero := by
      obtain ⟨units, aligned, bounded⟩ := m
      simp only [hzero, Nat.zero_mul] at hunits
      subst hunits
      rfl
    rw [hzero, toBinary64_zero, hm]
  · rw [toBinary64_eq_ofRatio hzero (by simp only; omega) (by simp only; omega)]
    show Binary64.ofRatio negative (m.units / unitsOfOne * 10 ^ 0 * unitsOfOne) 1 = _
    rw [Nat.pow_zero, Nat.mul_one, hunits, ← Nat.one_mul m.units]
    exact Binary64.ofRatio_units negative m (by decide)

end Decimal

namespace Magnitude

/-! ## The shortest digits -/

theorem unitRatio_neg (negative : Bool) (coefficient e : Nat) :
    Decimal.unitRatio ⟨negative, coefficient, -((e + 1 : Nat) : Int)⟩ =
      (coefficient * unitsOfOne, 10 ^ (e + 1)) := rfl

/-- The unit is as many fives away from a power of ten as it is halvings away from one. -/
theorem pow_five_mul_unitsOfOne : 5 ^ unitDepth * unitsOfOne = 10 ^ unitDepth := by
  rw [unitsOfOne, ← Nat.mul_pow]

/-- The exact value is read as what it is. -/
theorem toBinary64_exactDecimal {m : Magnitude} (h : m.units ≠ 0) :
    m.exactDecimal.toBinary64 = .finite false m := by
  have hfive : 0 < 5 ^ unitDepth := Nat.pow_pos (by decide)
  have hne : m.units * 5 ^ unitDepth ≠ 0 := Nat.mul_ne_zero h (Nat.ne_of_gt hfive)
  -- the coefficient is too long for the lowest place to be decisive
  have hlog : unitDepth ≤ (m.units * 5 ^ unitDepth).log2 := by
    rw [Nat.le_log2 hne]
    calc 2 ^ unitDepth ≤ 5 ^ unitDepth := Nat.pow_le_pow_left (by decide) _
      _ ≤ m.units * 5 ^ unitDepth := Nat.le_mul_of_pos_left _ (Nat.pos_of_ne_zero h)
  rw [Decimal.toBinary64_eq_ofRatio (d := m.exactDecimal) hne
    (by simp only [exactDecimal]; omega) (by simp only [exactDecimal]; omega)]
  obtain ⟨e, he⟩ : ∃ e, unitDepth = e + 1 := ⟨1073, rfl⟩
  show Binary64.ofRatio false
    (Decimal.unitRatio ⟨false, m.units * 5 ^ unitDepth, -(unitDepth : Int)⟩).1
    (Decimal.unitRatio ⟨false, m.units * 5 ^ unitDepth, -(unitDepth : Int)⟩).2 = _
  have hratio : Decimal.unitRatio ⟨false, m.units * 5 ^ unitDepth, -(unitDepth : Int)⟩ =
      (10 ^ unitDepth * m.units, 10 ^ unitDepth) := by
    rw [← pow_five_mul_unitsOfOne, he, unitRatio_neg, ← he, pow_five_mul_unitsOfOne,
      Nat.mul_assoc, pow_five_mul_unitsOfOne, Nat.mul_comm]
  rw [hratio]
  exact Binary64.ofRatio_units false m (Nat.pow_pos (by decide))

theorem readsBack_iff {m : Magnitude} {d : Decimal} :
    m.readsBack d = true ↔ d.toBinary64 = .finite false m := by
  rw [readsBack, decide_eq_true_eq]

/-- A neighbour is only taken if it reads back. -/
theorem toBinary64_neighbour? {tie : TieRule} {m : Magnitude} {place : Int} {d : Decimal}
    (h : neighbour? tie m place = some d) :
    d.toBinary64 = .finite false m ∧ d.negative = false := by
  unfold neighbour? at h
  simp only at h
  split at h
  · next hlower hupper =>
    rw [readsBack_iff] at hlower hupper
    obtain rfl := Option.some.inj h
    split
    · exact ⟨hupper, rfl⟩
    · exact ⟨hlower, rfl⟩
  · next hlower _ =>
    obtain rfl := Option.some.inj h
    exact ⟨readsBack_iff.1 hlower, rfl⟩
  · next _ hupper =>
    obtain rfl := Option.some.inj h
    exact ⟨readsBack_iff.1 hupper, rfl⟩
  · exact absurd h (by simp)

/-- Wherever the search ends, its outcome reads back. -/
theorem toBinary64_shortestFrom (tie : TieRule) {m : Magnitude} (hne : m.units ≠ 0)
    (steps : Nat) :
    (shortestFrom tie m steps).toBinary64 = .finite false m ∧
      (shortestFrom tie m steps).negative = false := by
  induction steps with
  | zero => exact ⟨toBinary64_exactDecimal hne, rfl⟩
  | succ steps ih =>
    unfold shortestFrom
    split
    · next d hd => exact toBinary64_neighbour? hd
    · exact ih

/-- **The shortest digits of a double read back as it.** -/
theorem toBinary64_shortest (tie : TieRule) (m : Magnitude) :
    (m.shortest tie).toBinary64 = .finite false m ∧ (m.shortest tie).negative = false := by
  unfold shortest
  by_cases hzero : m.units = 0
  · rw [if_pos hzero, Decimal.toBinary64_zero]
    obtain ⟨units, aligned, bounded⟩ := m
    simp only at hzero
    subst hzero
    exact ⟨rfl, rfl⟩
  · rw [if_neg hzero]
    exact toBinary64_shortestFrom tie hzero _

/-- The digits are not those of zero, or they are a single zero. -/
theorem shortest_coefficient (tie : TieRule) (m : Magnitude) :
    (m.shortest tie).coefficient ≠ 0 ∨ m.shortest tie = ⟨false, 0, 0⟩ := by
  by_cases hzero : m.units = 0
  · right
    rw [shortest, if_pos hzero]
  · left
    intro hcoefficient
    have hread := (toBinary64_shortest tie m).1
    generalize m.shortest tie = d at hcoefficient hread
    obtain ⟨negative, coefficient, exponent⟩ := d
    simp only at hcoefficient
    rw [hcoefficient, Decimal.toBinary64_zero] at hread
    rw [← (Binary64.finite.inj hread).2] at hzero
    exact hzero rfl

end Magnitude

/-! ## Machine integers -/

theorem roundUnits_le_double (num : Nat) : roundUnits num 1 ≤ 2 * num := by
  by_cases hzero : num = 0
  · subst hzero
    exact Nat.le_of_eq (roundUnits_zero 1)
  have hle := roundUnits_le num 1
  rw [Nat.div_one] at hle
  have hlog : 2 ^ (num.log2 - fractionBits) ≤ num :=
    Nat.le_trans (Nat.pow_le_pow_right (by decide) (Nat.sub_le _ _)) (Nat.log2_self_le hzero)
  omega

/-- An integer of machine size is in range. -/
theorem Decimal.isFinite_integer (negative : Bool) {n : Nat} (h : n < 2 ^ (64 : Nat)) :
    (toBinary64 ⟨negative, n, 0⟩).isFinite = true := by
  by_cases hzero : n = 0
  · rw [hzero, toBinary64_zero]
    rfl
  rw [toBinary64_eq_ofRatio hzero (by simp only; omega) (by simp only; omega)]
  show (Binary64.ofRatio negative (n * 10 ^ 0 * unitsOfOne) 1).isFinite = true
  rw [Nat.pow_zero, Nat.mul_one]
  have hlimit : 2 * (2 ^ (64 : Nat) * unitsOfOne) ≤ unitsLimit := by
    rw [unitsOfOne, unitsLimit]
    decide +kernel
  have hpos := unitsOfOne_pos
  have hlt : roundUnits (n * unitsOfOne) 1 < unitsLimit :=
    calc roundUnits (n * unitsOfOne) 1 ≤ 2 * (n * unitsOfOne) := roundUnits_le_double _
      _ < 2 * (2 ^ (64 : Nat) * unitsOfOne) :=
        Nat.mul_lt_mul_of_pos_left (Nat.mul_lt_mul_of_pos_right h hpos) (by decide)
      _ ≤ unitsLimit := hlimit
  unfold Binary64.ofRatio
  rw [dif_pos hlt]
  rfl

end StagedRollout
