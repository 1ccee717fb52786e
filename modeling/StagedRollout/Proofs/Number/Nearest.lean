/-
# StagedRollout.Proofs.Number.Nearest -- no double is nearer than the rounded one

The count that `roundUnits` yields is that of a double, and no count of a double is nearer to the
quotient (`roundUnits_nearest`). Between two doubles it picks one by the quotient alone, so rounding
keeps the order of quotients (`roundUnits_mono`). Another count as near as the rounded one is odd in
the last place that is kept (`roundUnits_eq_of_near`).
-/
import Mathlib.Data.Nat.Dist
import StagedRollout.Proofs.Number.Rounding

namespace StagedRollout

/- Powers of natural numbers are the core library's own. -/
attribute [local instance (2000)] instPowNat

/-! ## The nearest multiple -/

/-- The nearest multiple of a number is at most half of that number away. -/
theorem halfEven_near {den : Nat} (num : Nat) (pos : 0 < den) :
    2 * num ≤ 2 * (halfEven num den * den) + den ∧ 2 * (halfEven num den * den) ≤ 2 * num + den := by
  have hdivision := Nat.div_add_mod' num den
  have hrest := Nat.mod_lt num pos
  unfold halfEven
  split
  · omega
  · split
    · rw [Nat.add_mul, Nat.one_mul]
      omega
    · -- a tie: the quotient stays or is raised by one
      rcases Nat.mod_two_eq_zero_or_one (num / den) with heven | hodd
      · rw [heven, Nat.add_zero]
        omega
      · rw [hodd, Nat.add_mul, Nat.one_mul]
        omega

/-- It is exactly half of that number away only from an even multiple. -/
theorem halfEven_even_or_near {den : Nat} (num : Nat) (pos : 0 < den) :
    halfEven num den % 2 = 0 ∨
      2 * num < 2 * (halfEven num den * den) + den ∧
        2 * (halfEven num den * den) < 2 * num + den := by
  have hdivision := Nat.div_add_mod' num den
  have hrest := Nat.mod_lt num pos
  unfold halfEven
  split
  · right
    omega
  · split
    · right
      rw [Nat.add_mul, Nat.one_mul]
      omega
    · left
      omega

/-- No multiple is nearer. -/
theorem halfEven_nearest {den : Nat} (num k : Nat) (pos : 0 < den) :
    Nat.dist num (halfEven num den * den) ≤ Nat.dist num (k * den) := by
  obtain ⟨hbelow, habove⟩ := halfEven_near num pos
  unfold Nat.dist
  -- another multiple is a whole step further
  rcases Nat.lt_trichotomy k (halfEven num den) with hless | rfl | hmore
  · have hstep := Nat.mul_le_mul_right den hless
    rw [Nat.succ_mul] at hstep
    omega
  · exact Nat.le_refl _
  · have hstep := Nat.mul_le_mul_right den hmore
    rw [Nat.succ_mul] at hstep
    omega

/-! ## The nearest double -/

/-- The rounded count as a multiple of the last place that is kept. -/
theorem roundUnits_mul_den (num den : Nat) :
    roundUnits num den * den =
      halfEven num (den * 2 ^ ((num / den).log2 - fractionBits)) *
        (den * 2 ^ ((num / den).log2 - fractionBits)) := by
  unfold roundUnits
  ac_rfl

/-- The count of a double is a multiple of the last place that is kept of a quotient, or it lies
below all quotients of which so much is kept. -/
theorem dvd_or_lt_of_aligned (num den : Nat) {y : Nat} (hy : 2 ^ (y.log2 - fractionBits) ∣ y) :
    2 ^ ((num / den).log2 - fractionBits) ∣ y ∨
      y < 2 ^ (num / den).log2 ∧ 2 ^ (num / den).log2 * den ≤ num := by
  by_cases hlog : (num / den).log2 - fractionBits ≤ y.log2 - fractionBits
  · left
    exact Nat.dvd_trans (Nat.pow_dvd_pow 2 hlog) hy
  · right
    have hquotient : num / den ≠ 0 := by
      intro hzero
      rw [hzero, Nat.log2_zero] at hlog
      omega
    constructor
    · exact Nat.lt_of_lt_of_le Nat.lt_log2_self (Nat.pow_le_pow_right (by decide) (by omega))
    · calc 2 ^ (num / den).log2 * den ≤ num / den * den :=
            Nat.mul_le_mul_right _ (Nat.log2_self_le hquotient)
        _ ≤ num := Nat.div_mul_le_self _ _

/-- **Rounding is to the nearest.** No count of a double is nearer to a quotient than the rounded
one. -/
theorem roundUnits_nearest (num : Nat) {den y : Nat} (pos : 0 < den)
    (hy : 2 ^ (y.log2 - fractionBits) ∣ y) :
    Nat.dist num (roundUnits num den * den) ≤ Nat.dist num (y * den) := by
  have hstep : 0 < den * 2 ^ ((num / den).log2 - fractionBits) :=
    Nat.mul_pos pos (Nat.two_pow_pos _)
  rw [roundUnits_mul_den]
  rcases dvd_or_lt_of_aligned num den hy with ⟨k, rfl⟩ | ⟨hlow, hpower⟩
  · have hnearest := halfEven_nearest num k hstep
    rwa [show 2 ^ ((num / den).log2 - fractionBits) * k * den =
      k * (den * 2 ^ ((num / den).log2 - fractionBits)) by ac_rfl]
  · -- the leading power of two stands between the double and the quotient, and is a multiple itself
    by_cases hbits : fractionBits ≤ (num / den).log2
    · have hnearest := halfEven_nearest num (2 ^ fractionBits) hstep
      have hlead : 2 ^ fractionBits * (den * 2 ^ ((num / den).log2 - fractionBits)) =
          2 ^ (num / den).log2 * den := by
        rw [Nat.mul_left_comm, ← Nat.pow_add, Nat.add_sub_cancel' hbits, Nat.mul_comm]
      have hless := Nat.mul_lt_mul_of_pos_right hlow pos
      rw [hlead] at hnearest
      unfold Nat.dist at *
      omega
    · -- so little is kept of nothing
      have hzero : (num / den).log2 - fractionBits = 0 := by omega
      have hnearest := halfEven_nearest num y hstep
      rw [hzero, Nat.pow_zero, Nat.mul_one] at hnearest ⊢
      exact hnearest

/-- **Rounding keeps the order.** -/
theorem roundUnits_mono {num num' den : Nat} (pos : 0 < den) (h : num ≤ num') :
    roundUnits num den ≤ roundUnits num' den := by
  have hnearest := roundUnits_nearest num pos (aligned_roundUnits num' den)
  have hnearest' := roundUnits_nearest num' pos (aligned_roundUnits num den)
  by_contra hless
  have hcounts := Nat.mul_lt_mul_of_pos_right (Nat.lt_of_not_le hless) pos
  -- both quotients would lie in the middle of the two counts
  obtain rfl : num = num' := by
    unfold Nat.dist at hnearest hnearest'
    omega
  exact hless (Nat.le_refl _)

/-- An even multiple as near as the nearest one is the nearest one. -/
theorem halfEven_eq_of_near {num den k : Nat} (pos : 0 < den)
    (hnear : Nat.dist num (2 * k * den) ≤ Nat.dist num (halfEven num den * den)) :
    halfEven num den = 2 * k := by
  obtain ⟨hbelow, habove⟩ := halfEven_near num pos
  unfold Nat.dist at hnear
  -- from an even multiple to the next even one it is two steps, from an odd one less than half a step
  rcases halfEven_even_or_near num pos with heven | ⟨hbelow', habove'⟩
  · rcases Nat.lt_trichotomy (halfEven num den) (2 * k) with hless | heq | hmore
    · have hsteps := Nat.mul_le_mul_right den (show halfEven num den + 2 ≤ 2 * k by omega)
      rw [Nat.add_mul] at hsteps
      omega
    · exact heq
    · have hsteps := Nat.mul_le_mul_right den (show 2 * k + 2 ≤ halfEven num den by omega)
      rw [Nat.add_mul] at hsteps
      omega
  · rcases Nat.lt_trichotomy (halfEven num den) (2 * k) with hless | heq | hmore
    · have hstep := Nat.mul_le_mul_right den hless
      rw [Nat.succ_mul] at hstep
      omega
    · exact heq
    · have hstep := Nat.mul_le_mul_right den hmore
      rw [Nat.succ_mul] at hstep
      omega

/-- A count as near as the rounded one is the rounded one, if it is even in the last place that is
kept of the quotient. -/
theorem roundUnits_eq_of_near {num den y : Nat} (pos : 0 < den)
    (heven : 2 ^ ((num / den).log2 - fractionBits + 1) ∣ y)
    (hnear : Nat.dist num (y * den) ≤ Nat.dist num (roundUnits num den * den)) :
    roundUnits num den = y := by
  obtain ⟨k, rfl⟩ := heven
  have hstep : 0 < den * 2 ^ ((num / den).log2 - fractionBits) :=
    Nat.mul_pos pos (Nat.two_pow_pos _)
  have hmultiple : 2 ^ ((num / den).log2 - fractionBits + 1) * k * den =
      2 * k * (den * 2 ^ ((num / den).log2 - fractionBits)) := by
    rw [Nat.pow_succ]
    ac_rfl
  rw [roundUnits_mul_den, hmultiple] at hnear
  show halfEven _ _ * _ = _
  rw [halfEven_eq_of_near hstep hnear, Nat.pow_succ]
  ac_rfl

/-! ## The next double -/

/-- Two doubles are apart by at least the last place of the smaller one. -/
theorem add_place_le {x y : Nat} (hx : 2 ^ (x.log2 - fractionBits) ∣ x)
    (hy : 2 ^ (y.log2 - fractionBits) ∣ y) (h : x < y) :
    x + 2 ^ (x.log2 - fractionBits) ≤ y := by
  have hlog : x.log2 ≤ y.log2 := by
    by_cases hzero : x = 0
    · rw [hzero, Nat.log2_zero]
      exact Nat.zero_le _
    · rw [Nat.le_log2 (by omega)]
      exact Nat.le_trans (Nat.log2_self_le hzero) (Nat.le_of_lt h)
  have hplace : 2 ^ (x.log2 - fractionBits) ∣ y :=
    Nat.dvd_trans (Nat.pow_dvd_pow 2 (by omega)) hy
  -- their difference is a multiple of that place
  have hdifference := Nat.le_of_dvd (by omega) (Nat.dvd_sub hplace hx)
  omega

end StagedRollout
