/-
# StagedRollout.Proofs.Rollout.TypedPercent -- which texts are percentages

A typed percentage is judged by the double of its numeral, not by what the numeral says. So a text
is a percentage exactly when it is a numeral to whose exact value no double is nearer than a whole
number from 0 to 100 (`Percent.ofText_eq_ok`). Every numeral for such a number is let in, in
whatever form, and a numeral that is let in is at most 2⁻⁴⁷ off (`Percent.ofText_accepts`), but it
need not be whole (`Percent.ofText_not_whole`).
-/
import StagedRollout.Proofs.Number.DecimalValue
import StagedRollout.Proofs.Number.TypedNumeral
import StagedRollout.Proofs.Rollout.OperandRange

namespace StagedRollout

/- Powers of natural numbers are the core library's own, and the large ones stay folded. -/
attribute [local instance (2000)] instPowNat
attribute [local irreducible] unitsOfOne unitsLimit

/-! ## Doubles near a percentage -/

/-- The count of 101, a double that is no percentage. -/
def Magnitude.beyondFull : Magnitude :=
  ⟨101 * unitsOfOne, aligned_whole (by decide), whole_lt_unitsLimit (by decide)⟩

/-- If no double is nearer to a quotient than a percentage, the quotient is rounded to it. -/
theorem roundUnits_eq_of_percent {num den n : Nat} (pos : 0 < den) (hn : n ≤ 100)
    (h : ∀ m : Magnitude, Nat.dist num (n * unitsOfOne * den) ≤ Nat.dist num (m.units * den)) :
    roundUnits num den = n * unitsOfOne := by
  have hstep : 0 < unitsOfOne * den := Nat.mul_pos unitsOfOne_pos pos
  have hpercent : n * unitsOfOne * den ≤ 100 * (unitsOfOne * den) := by
    rw [Nat.mul_assoc]
    exact Nat.mul_le_mul_right _ hn
  -- the quotient is no nearer to 101, so it is small and its last place is far below one
  have hbeyond : Nat.dist num (n * unitsOfOne * den) ≤ Nat.dist num (101 * unitsOfOne * den) :=
    h .beyondFull
  have hless : num < 101 * (unitsOfOne * den) := by
    rw [Nat.mul_assoc 101] at hbeyond
    unfold Nat.dist at hbeyond
    omega
  have hsmall : num / den < 128 * unitsOfOne := by
    rw [Nat.div_lt_iff_lt_mul pos, Nat.mul_assoc]
    omega
  have heven : 2 ^ ((num / den).log2 - fractionBits + 1) ∣ n * unitsOfOne := by
    have hlog := log2_lt_of_small hsmall
    have hbits : 7 < fractionBits := by decide
    have hdepth : 0 < unitDepth := by decide
    rw [unitsOfOne_eq]
    exact Nat.dvd_trans (Nat.pow_dvd_pow 2 (by omega)) (Nat.dvd_mul_left _ _)
  have hbounded : roundUnits num den < unitsLimit := by
    have hfar : 201 * unitsOfOne < unitsLimit := whole_lt_unitsLimit (by decide)
    have hnear := (roundUnits_near hsmall).2
    have hslack := gain_lt
    omega
  exact roundUnits_eq_of_near pos heven (h ⟨_, aligned_roundUnits num den, hbounded⟩)

namespace Percent

/-- A number is taken for a percentage if it is equal to it. -/
theorem ofNumber_eq_ok {x : Binary64} {p : Percent} :
    ofNumber x = .ok p ↔ x.toInt? = some (p.value : Int) := by
  rw [← bind_ofInt?_eq_some, ofNumber]
  cases x.toInt? >>= ofInt? <;> simp

/-- A number that is taken for a percentage is as many ones. Of zero the sign does not count. -/
theorem ofNumber_eq_ok_iff_units {x : Binary64} {p : Percent} :
    ofNumber x = .ok p ↔ ∃ negative m, x = .finite negative m ∧
      m.units = p.value * unitsOfOne ∧ (negative = true → p.value = 0) := by
  rw [ofNumber_eq_ok]
  cases x with
  | nan => simp [Binary64.toInt?]
  | infinite negative => simp [Binary64.toInt?]
  | finite negative m =>
    rw [Binary64.toInt?, Option.ite_none_right_eq_some, Option.some.injEq]
    constructor
    · rintro ⟨hmod, hvalue⟩
      have hunits := Nat.div_mul_cancel (Nat.dvd_of_mod_eq_zero hmod)
      refine ⟨negative, m, rfl, ?_⟩
      cases negative with
      | false =>
        have hcount : m.units / unitsOfOne = p.value := Int.ofNat.inj hvalue
        exact ⟨by rw [← hcount, hunits], fun hsign => absurd hsign Bool.false_ne_true⟩
      | true =>
        rw [signed, if_pos rfl] at hvalue
        generalize m.units / unitsOfOne = n at hvalue hunits
        have hzero : p.value = 0 := by omega
        have hnothing : n = 0 := by omega
        exact ⟨by rw [← hunits, hnothing, hzero], fun _ => hzero⟩
    · rintro ⟨_, _, ⟨⟩, hunits, hsign⟩
      rw [hunits, Nat.mul_mod_left, Nat.mul_div_cancel _ unitsOfOne_pos]
      exact ⟨rfl, signed_eq_self hsign⟩

theorem cast_count (n : Nat) : ((n * unitsOfOne : Nat) : ℚ) / unitsOfOne = n := by
  have hunit : (unitsOfOne : ℚ) ≠ 0 := Nat.cast_ne_zero.2 (Nat.ne_of_gt unitsOfOne_pos)
  rw [Nat.cast_mul, mul_div_cancel_right₀ _ hunit]

/-- A quotient to which no double is nearer than a percentage is taken for that percentage. -/
theorem ofNumber_ofRatio {num den : Nat} {p : Percent} (pos : 0 < den) {negative : Bool}
    (hsign : negative = true → p.value = 0)
    (h : NoneNearer (p.value : ℚ) ((num : ℚ) / den / unitsOfOne)) :
    ofNumber (Binary64.ofRatio negative num den) = .ok p := by
  rw [← cast_count, noneNearer_iff pos] at h
  have hrounded := roundUnits_eq_of_percent pos p.value_le h
  have hbounded : roundUnits num den < unitsLimit := by
    have hfar : 201 * unitsOfOne < unitsLimit := whole_lt_unitsLimit (by decide)
    have hpercent := Nat.mul_le_mul_right unitsOfOne p.value_le
    omega
  rw [Binary64.ofRatio, dif_pos hbounded]
  exact ofNumber_eq_ok_iff_units.2 ⟨negative, _, rfl, hrounded, hsign⟩

/-- **The double of a decimal is taken for a percentage** if no double is nearer to the exact value
of the decimal. -/
theorem ofNumber_toBinary64 {d : Decimal} {p : Percent} :
    ofNumber d.toBinary64 = .ok p ↔ NoneNearer p.value d.value := by
  constructor
  · intro h
    obtain ⟨negative, m, hfinite, hunits, hsign⟩ := ofNumber_eq_ok_iff_units.1 h
    apply Decimal.toBinary64_nearest
    rw [hfinite]
    show some ((signed negative m.units : ℚ) / unitsOfOne) = _
    have hsigned : signed negative m.units = (p.value * unitsOfOne : Nat) := by
      rw [← hunits]
      apply signed_eq_self
      intro hnegative
      rw [hunits, hsign hnegative, Nat.zero_mul]
    rw [hsigned, Int.cast_natCast, cast_count]
  · intro h
    rw [Decimal.toBinary64_eq]
    unfold Decimal.value at h
    cases hnegative : d.negative with
    | false =>
      rw [hnegative, Decimal.size_eq] at h
      exact ofNumber_ofRatio d.unitRatio_den_pos (fun hsign => absurd hsign Bool.false_ne_true) h
    | true =>
      rw [hnegative, if_pos rfl] at h
      -- zero is nearer to a number below zero than every other percentage
      have hzero : (p.value : ℚ) = 0 := by
        have hnone := h .zero 0 (by simp [Binary64.value?, Binary64.zero, Magnitude.zero, signed])
        have hsize := d.size_nonneg
        have hvalue : (0 : ℚ) ≤ p.value := Nat.cast_nonneg _
        rw [abs_of_nonpos (by linarith), abs_of_nonpos (by linarith)] at hnone
        linarith
      have hpositive := h.neg
      rw [neg_neg, hzero, neg_zero, ← hzero, Decimal.size_eq] at hpositive
      exact ofNumber_ofRatio d.unitRatio_den_pos (fun _ => Nat.cast_eq_zero.1 hzero) hpositive

/-! ## How far off a percentage may be -/

theorem signed_natAbs_mul (i : Int) (k : Nat) :
    signed (decide (i < 0)) (i.natAbs * k) = i * k := by
  by_cases hi : i < 0
  · have habs : (i.natAbs : Int) = -i := by omega
    rw [decide_eq_true hi, signed, if_pos rfl, Int.natCast_mul, habs, Int.neg_mul, Int.neg_neg]
  · have habs : (i.natAbs : Int) = i := by omega
    rw [decide_eq_false hi, signed, if_neg Bool.false_ne_true, Int.natCast_mul, habs]

/-- All multiples of 2⁻⁴⁶ up to 128 are doubles. -/
theorem exists_value? {i : Int} (h : i.natAbs ≤ 2 ^ (fractionBits + 1)) :
    ∃ b : Binary64, b.value? = some ((i : ℚ) / 2 ^ (46 : Nat)) := by
  obtain ⟨shift, hshift⟩ : ∃ shift, shift + 46 = unitDepth := ⟨1028, rfl⟩
  have hunits : 2 ^ shift * 2 ^ (46 : Nat) = unitsOfOne := by
    rw [unitsOfOne_eq, ← hshift, Nat.pow_add]
  have hbounded : i.natAbs * 2 ^ shift < unitsLimit := by
    have hstep : 2 ^ shift ≤ unitsOfOne := hunits ▸ Nat.le_mul_of_pos_right _ (by decide)
    exact Nat.lt_of_le_of_lt (Nat.mul_le_mul h hstep) (whole_lt_unitsLimit (Nat.le_refl _))
  refine ⟨.finite (decide (i < 0)) ⟨_, aligned_mul_pow shift h, hbounded⟩, ?_⟩
  show some ((signed (decide (i < 0)) (i.natAbs * 2 ^ shift) : ℚ) / unitsOfOne) = _
  have hpos : (0 : ℚ) < (2 ^ shift : Nat) := Nat.cast_pos.2 (Nat.two_pow_pos _)
  rw [signed_natAbs_mul, ← hunits, Int.cast_mul, Int.cast_natCast, Nat.cast_mul,
    mul_comm ((2 ^ shift : Nat) : ℚ), mul_div_mul_right _ _ (ne_of_gt hpos), Nat.cast_pow]
  rfl

/-- What is no further than both its neighbours on a grid is at most half of the grid's step off. -/
theorem abs_le_half {a step : ℚ} (hup : |a| ≤ |a - step|) (hdown : |a| ≤ |a + step|)
    (hstep : 0 < step) : |a| ≤ step / 2 := by
  rcases le_total 0 a with ha | ha
  · rw [abs_of_nonneg ha] at hup ⊢
    rcases le_total a step with hle | hle
    · rw [abs_of_nonpos (by linarith)] at hup
      linarith
    · rw [abs_of_nonneg (by linarith)] at hup
      linarith
  · rw [abs_of_nonpos ha] at hdown ⊢
    rcases le_total (-step) a with hle | hle
    · rw [abs_of_nonneg (by linarith)] at hdown
      linarith
    · rw [abs_of_nonpos (by linarith)] at hdown
      linarith

/-- A number is at most 2⁻⁴⁷ off if no double is nearer to it than a percentage. -/
theorem abs_sub_le_of_noneNearer {p : Percent} {v : ℚ} (h : NoneNearer p.value v) :
    |v - p.value| ≤ 1 / 2 ^ (47 : Nat) := by
  have hp := p.value_le
  have hbits : 2 ^ (fractionBits + 1) = 128 * 2 ^ (46 : Nat) := by decide
  obtain ⟨above, habove⟩ := exists_value? (i := p.value * 2 ^ (46 : Nat) + 1) (by omega)
  obtain ⟨below, hbelow⟩ := exists_value? (i := p.value * 2 ^ (46 : Nat) - 1) (by omega)
  have hup := h above _ habove
  have hdown := h below _ hbelow
  have hstep : (0 : ℚ) < 1 / 2 ^ (46 : Nat) := by positivity
  have hnext : ((p.value * 2 ^ (46 : Nat) + 1 : Int) : ℚ) / 2 ^ (46 : Nat) =
      p.value + 1 / 2 ^ (46 : Nat) := by
    rw [Int.cast_add, Int.cast_mul, add_div, mul_div_assoc]
    norm_num
  have hlast : ((p.value * 2 ^ (46 : Nat) - 1 : Int) : ℚ) / 2 ^ (46 : Nat) =
      p.value - 1 / 2 ^ (46 : Nat) := by
    rw [Int.cast_sub, Int.cast_mul, sub_div, mul_div_assoc]
    norm_num
  rw [hnext, ← sub_sub] at hup
  rw [hlast, ← sub_add] at hdown
  have hhalf := abs_le_half hup hdown hstep
  have hdouble : (1 : ℚ) / 2 ^ (46 : Nat) / 2 = 1 / 2 ^ (47 : Nat) := by norm_num
  rwa [hdouble] at hhalf

/-! ## Texts -/

/-- A numeral with blanks around it is taken for what the double of its decimal is taken for. -/
theorem ofText_of_spells {content : String} {d : Decimal}
    (h : SpellsDecimal d (trim content.toList)) : ofText content = ofNumber d.toBinary64 := by
  rw [ofText, Binary64.ofText?_of_spells h]

/-- **Which texts are percentages.** Numerals, with blanks around them or none, to whose exact value
no double is nearer than the percentage. -/
theorem ofText_eq_ok {content : String} {p : Percent} :
    ofText content = .ok p ↔
      ∃ d, SpellsDecimal d (trim content.toList) ∧ NoneNearer p.value d.value := by
  constructor
  · intro h
    unfold ofText at h
    split at h
    · next x hx =>
      obtain hword | ⟨d, hd, rfl⟩ := Binary64.ofText?_eq_some hx
      · obtain ⟨negative, m, rfl, -⟩ := ofNumber_eq_ok_iff_units.1 h
        exact absurd hword (by simp [Binary64.isFinite])
      · exact ⟨d, hd, ofNumber_toBinary64.1 h⟩
    · exact absurd h (by simp)
  · rintro ⟨d, hd, hnone⟩
    rw [ofText_of_spells hd]
    exact ofNumber_toBinary64.2 hnone

/-- Whatever is refused is refused as no percentage. -/
theorem exists_invalidPercent {content : String} {cause : RolloutError}
    (h : ofText content = .error cause) : ∃ input, cause = .invalidPercent input := by
  unfold ofText ofNumber at h
  split at h
  · split at h
    · exact absurd h (by simp)
    · exact ⟨_, (Except.error.inj h).symm⟩
  · exact ⟨_, (Except.error.inj h).symm⟩

/-- **Which texts are let in as a percentage.** It is the numerals to whose exact value no double is
nearer. Every numeral for the percentage itself is one of them, whatever its form, and each of them
is off by at most 2⁻⁴⁷. All other texts are refused as no percentage. -/
theorem ofText_accepts (content : String) :
    (∀ p : Percent, ofText content = .ok p ↔
        ∃ d, SpellsDecimal d (trim content.toList) ∧ NoneNearer p.value d.value) ∧
      (∀ (p : Percent) (d : Decimal), SpellsDecimal d (trim content.toList) →
        d.value = p.value → ofText content = .ok p) ∧
      (∀ (p : Percent) (d : Decimal), SpellsDecimal d (trim content.toList) →
        ofText content = .ok p → |d.value - p.value| ≤ 1 / 2 ^ (47 : Nat)) ∧
      ∀ cause, ofText content = .error cause → ∃ input, cause = .invalidPercent input := by
  refine ⟨fun p => ofText_eq_ok, ?_, ?_, fun cause => exists_invalidPercent⟩
  · intro p d hd hvalue
    apply ofText_eq_ok.2
    refine ⟨d, hd, ?_⟩
    intro b y _
    rw [hvalue, sub_self, abs_zero]
    exact abs_nonneg _
  · intro p d hd hp
    rw [ofText_of_spells hd] at hp
    exact abs_sub_le_of_noneNearer (ofNumber_toBinary64.1 hp)

/-- Two numerals are let in that are not whole: one is rounded to a hundred, the other to zero. -/
theorem ofText_not_whole :
    (∃ d, SpellsDecimal d (trim "99.99999999999999999999".toList) ∧
      (∀ i : Int, d.value ≠ i) ∧ ofText "99.99999999999999999999" = .ok full) ∧
    ∃ d, SpellsDecimal d (trim "1e-400".toList) ∧
      (∀ i : Int, d.value ≠ i) ∧ ofText "1e-400" = .ok zero := by
  have hrounded : SpellsDecimal ⟨false, 9999999999999999999999, -20⟩
      (trim "99.99999999999999999999".toList) :=
    .parts .none (ofUnsignedText?_eq_some.1 (by decide +kernel))
  have hvanished : SpellsDecimal ⟨false, 1, -400⟩ (trim "1e-400".toList) :=
    .parts .none (ofUnsignedText?_eq_some.1 (by decide +kernel))
  refine ⟨⟨_, hrounded, ?_, ?_⟩, _, hvanished, ?_, ?_⟩
  · intro i hi
    simp only [Decimal.value, Decimal.size, Bool.false_eq_true, if_false] at hi
    have hwhole : (9999999999999999999999 : ℚ) = i * 10 ^ (20 : Nat) := by
      rw [← hi]
      norm_num
    have hcount : (9999999999999999999999 : Int) = i * 10 ^ (20 : Nat) := by exact_mod_cast hwhole
    omega
  · rw [ofText_of_spells hrounded, ofNumber_eq_ok]
    decide +kernel
  · intro i hi
    have hvalue : Decimal.value ⟨false, 1, -400⟩ = (10 : ℚ) ^ (-400 : Int) := by
      simp only [Decimal.value, Decimal.size, Bool.false_eq_true, if_false, Nat.cast_one, one_mul]
    have hpos : (0 : ℚ) < (10 : ℚ) ^ (-400 : Int) := zpow_pos (by norm_num) _
    have hlt : (10 : ℚ) ^ (-400 : Int) < 1 := zpow_lt_one_of_neg₀ (by norm_num) (by decide)
    rw [← hvalue, hi] at hpos hlt
    have hlow : 0 < i := by exact_mod_cast hpos
    have hhigh : i < 1 := by exact_mod_cast hlt
    omega
  · rw [ofText_of_spells hvanished, ofNumber_eq_ok]
    decide +kernel

end Percent

end StagedRollout
