/-
# StagedRollout.Number.Rounding -- the double nearest to an exact quotient

Every number that the program reads or computes is first an exact quotient of natural numbers
and then the double nearest to it, ties going to the even neighbour. `roundUnits` does that on
counts of `2⁻¹⁰⁷⁴`: it keeps the 53 leading bits of the quotient and rounds what follows
them. `aligned_roundUnits` says that the outcome is the count of a double again, so
`Binary64.ofRatio` has only the bound to test, beyond which a number becomes infinite.
-/
import StagedRollout.Number.Binary64

namespace StagedRollout

/- Powers of natural numbers are the core library's own. -/
attribute [local instance (2000)] instPowNat

/-! ## Rounding a quotient to an integer -/

/-- The integer nearest to `num / den`; a tie goes to the even one. -/
def halfEven (num den : Nat) : Nat :=
  if 2 * (num % den) < den then num / den
  else if den < 2 * (num % den) then num / den + 1
  else num / den + num / den % 2

theorem halfEven_le (num den : Nat) : halfEven num den ≤ num / den + 1 := by
  unfold halfEven
  split
  · omega
  · split <;> omega

theorem le_halfEven (num den : Nat) : num / den ≤ halfEven num den := by
  unfold halfEven
  split
  · omega
  · split <;> omega

/-- Rounding changes nothing where the division is exact. -/
theorem halfEven_of_dvd {num den : Nat} (pos : 0 < den) (h : den ∣ num) :
    halfEven num den = num / den := by
  have : num % den = 0 := Nat.mod_eq_zero_of_dvd h
  simp [halfEven, this, pos]

/-! ## Keeping 53 bits -/

/-- The count nearest to `num / den` among those whose leading 53 bits hold everything. -/
def roundUnits (num den : Nat) : Nat :=
  let shift := (num / den).log2 - fractionBits
  halfEven num (den * 2 ^ shift) * 2 ^ shift

theorem div_pow_lt (q : Nat) : q / 2 ^ (q.log2 - fractionBits) < 2 ^ (fractionBits + 1) := by
  rw [Nat.div_lt_iff_lt_mul (Nat.two_pow_pos _), ← Nat.pow_add]
  exact Nat.lt_of_lt_of_le Nat.lt_log2_self (Nat.pow_le_pow_right (by decide) (by omega))

theorem aligned_mul_pow {m : Nat} (shift : Nat) (h : m ≤ 2 ^ (fractionBits + 1)) :
    2 ^ ((m * 2 ^ shift).log2 - fractionBits) ∣ m * 2 ^ shift := by
  rcases Nat.eq_zero_or_pos m with rfl | pos
  · simp
  rcases Nat.lt_or_eq_of_le h with lt | rfl
  · refine Nat.dvd_trans (Nat.pow_dvd_pow 2 ?_) (Nat.dvd_mul_left _ _)
    have small : m * 2 ^ shift < 2 ^ (fractionBits + 1 + shift) := by
      rw [Nat.pow_add]
      exact Nat.mul_lt_mul_of_pos_right lt (Nat.two_pow_pos _)
    have := (Nat.log2_lt (Nat.mul_ne_zero (by omega) (Nat.ne_of_gt (Nat.two_pow_pos _)))).2 small
    omega
  · rw [← Nat.pow_add, Nat.log2_two_pow]
    exact Nat.pow_dvd_pow 2 (by omega)

/-- Rounding yields the count of a double, the upper bound apart. -/
theorem aligned_roundUnits (num den : Nat) :
    2 ^ ((roundUnits num den).log2 - fractionBits) ∣ roundUnits num den := by
  refine aligned_mul_pow _ (Nat.le_trans (halfEven_le _ _) ?_)
  have := div_pow_lt (num / den)
  rw [Nat.div_div_eq_div_mul] at this
  omega

namespace Binary64

/-- The double nearest to the signed quotient `num / den` of units; from `2¹⁰²⁴` on it is
infinite. -/
def ofRatio (negative : Bool) (num den : Nat) : Binary64 :=
  if h : roundUnits num den < unitsLimit then
    .finite negative ⟨roundUnits num den, aligned_roundUnits num den, h⟩
  else
    .infinite negative

/-- One hundred times a number, rounded. -/
def hundredfold : Binary64 → Binary64
  | .finite negative m => ofRatio negative (100 * m.units) 1
  | x => x

/-- The double nearest to `n / 100`. -/
def hundredths (n : Nat) : Binary64 := ofRatio false (n * unitsOfOne) 100

end Binary64

end StagedRollout
