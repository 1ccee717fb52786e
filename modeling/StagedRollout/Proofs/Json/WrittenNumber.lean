/-
# StagedRollout.Proofs.Json.WrittenNumber -- written numbers are number literals

Numbers are written by one set of rules and read by another. Here the writer's texts are fitted
into the grammar of literals: an integer is a literal without point and exponent that denotes it
(`spellsNumber_intChars`), a finite double one with a point or an exponent that counts as it
(`spellsNumber_floatChars`). For a double there are four forms, by where the point falls among its
digits; in three of them the literal says the very decimal that was written, and only the form
with a bare `.0` behind says it with more zeros.
-/
import StagedRollout.Proofs.Number.Readback
import StagedRollout.Proofs.Json.Numerals
import StagedRollout.Number.Notation
import StagedRollout.Json.Writer

namespace StagedRollout

/- Powers of natural numbers are the core library's own. -/
attribute [local instance (2000)] instPowNat

/-! ## Digits -/

theorem digits_digitsOf (n : Nat) : Digits (digitsOf n) :=
  ⟨Nat.toDigits_ne_nil, fun _ h => Nat.isDigit_of_mem_toDigits (by decide) (by decide) h⟩

/-- The digits of a number start with none that could be left out. -/
theorem head?_digitsOf {n : Nat} (h : n ≠ 0) : (digitsOf n).head? ≠ some '0' := by
  induction n using Nat.strongRecOn with
  | _ n ih =>
    unfold digitsOf
    by_cases hlt : n < 10
    · rw [Nat.toDigits_of_lt_base hlt]
      simpa using h
    · rw [Nat.toDigits_of_base_le (by decide) (by omega)]
      have hhead := ih (n / 10) (by omega) (by omega)
      obtain ⟨c, digits, hdigits, -⟩ := (digits_digitsOf (n / 10)).head
      rw [hdigits] at hhead
      rw [← digitsOf, hdigits]
      exact hhead

theorem digitsOf_head_or {n : Nat} : digitsOf n = ['0'] ∨ (digitsOf n).head? ≠ some '0' := by
  by_cases h : n = 0
  · left
    rw [h]
    rfl
  · exact .inr (head?_digitsOf h)

/-- Every zero behind digits is worth a factor of ten. -/
theorem digitsValue_zeros (digits : List Char) (zeros : Nat) :
    digitsValue (digits ++ List.replicate zeros '0') = digitsValue digits * 10 ^ zeros := by
  induction zeros with
  | zero => rw [List.replicate_zero, List.append_nil, Nat.pow_zero, Nat.mul_one]
  | succ zeros ih =>
    rw [List.replicate_succ', ← List.append_assoc, digitsValue_append, ih, Nat.pow_succ]
    show 10 * _ + 0 = _
    rw [Nat.add_zero, Nat.mul_left_comm, Nat.mul_comm 10]

/-- Zeros in front of digits are worth nothing. -/
theorem digitsValue_zeros_append (zeros : Nat) (digits : List Char) :
    digitsValue (List.replicate zeros '0' ++ digits) = digitsValue digits := by
  induction zeros with
  | zero => rfl
  | succ zeros ih =>
    rw [List.replicate_succ, List.cons_append]
    exact ih

theorem digits_replicate {zeros : Nat} (digits : List Char) (h : ∀ c ∈ digits, c.isDigit = true) :
    ∀ c ∈ List.replicate zeros '0' ++ digits, c.isDigit = true := by
  intro c hc
  rcases List.mem_append.1 hc with hc | hc
  · rw [(List.mem_replicate.1 hc).2]
    rfl
  · exact h c hc

/-! ## Integers -/

/-- An integer of machine size. -/
def Machine (i : Int) : Prop := -Numeral.signedSpan ≤ i ∧ i < Numeral.unsignedSpan

/-- The literal that is written for an integer. -/
def integerNumeral (i : Int) : Numeral :=
  ⟨⟨decide (i < 0), i.natAbs, 0⟩, true, Numeral.toldDigits < (digitsOf i.natAbs).length⟩

theorem spellsNumber_intChars (i : Int) : SpellsNumber (integerNumeral i) (intChars i) := by
  have hspelled := SpellsNumber.parts (decide (i < 0)) (digits_digitsOf i.natAbs)
    digitsOf_head_or .none .none
  rw [List.append_nil, digitsValue_digitsOf] at hspelled
  have htext : (if decide (i < 0) = true then ['-'] else []) ++ (digitsOf i.natAbs ++ ([] ++ [])) =
      intChars i := by
    unfold intChars
    by_cases hneg : i < 0
    · simp [hneg]
    · simp [hneg]
  rw [htext] at hspelled
  exact hspelled

theorem toInt?_integerNumeral {i : Int} (h : Machine i) : (integerNumeral i).toInt? = some i := by
  obtain ⟨hlow, hhigh⟩ := h
  by_cases hneg : i < 0
  · have hrange : i.natAbs ≠ 0 ∧ i.natAbs ≤ Numeral.signedSpan := by omega
    simp only [Numeral.toInt?, integerNumeral, hneg, decide_true, if_true, hrange, ne_eq,
      not_false_eq_true, and_self, Option.some.injEq]
    omega
  · have hrange : i.natAbs < Numeral.unsignedSpan := by omega
    simp only [Numeral.toInt?, integerNumeral, hneg, decide_false, if_true, Bool.false_eq_true,
      if_false, hrange, Option.some.injEq]
    omega

/-! ## Doubles -/

/-- A literal that is no integer and counts as a decimal. -/
def CountsAs (n : Numeral) (d : Decimal) : Prop :=
  n.whole = false ∧ n.overlong = false ∧ n.decimal.toBinary64 = d.toBinary64

/-- A text that spells a literal with a point or an exponent, of at most sixteen whole digits. -/
theorem exists_spellsNumber (negative : Bool) {whole fraction fractionText exponentText : List Char}
    {exponent : Option Int} (hwhole : Digits whole)
    (hzero : whole = ['0'] ∨ whole.head? ≠ some '0') (hlength : whole.length ≤ 16)
    (hfraction : SpellsFraction fraction fractionText)
    (hexponent : SpellsExponent exponent exponentText) (hpart : fraction ≠ [] ∨ exponent ≠ none)
    {d : Decimal} (hd : Decimal.toBinary64 ⟨negative, digitsValue (whole ++ fraction),
      exponent.getD 0 - fraction.length⟩ = d.toBinary64) :
    ∃ n, SpellsNumber n (NumberNotation.signText negative ++
      (whole ++ (fractionText ++ exponentText))) ∧ CountsAs n d := by
  refine ⟨_, .parts negative hwhole hzero hfraction hexponent, ?_, ?_, hd⟩
  · rw [decide_eq_false_iff_not]
    -- a fraction or an exponent keeps the literal from being an integer
    rintro ⟨hnone, hnone'⟩
    rcases hpart with hpart | hpart
    · exact hpart hnone
    · exact hpart hnone'
  · rw [decide_eq_false_iff_not, Numeral.toldDigits]
    omega

/-- Where the digits have to be padded with zeros, and a point follows. -/
theorem exists_spells_padded (negative : Bool) {d : Decimal} {zeros : Nat}
    (hexponent : d.exponent = zeros) (hsize : zeros + (digitsOf d.coefficient).length ≤ 16)
    (hplain : d.coefficient ≠ 0 ∨ zeros = 0) :
    ∃ n, SpellsNumber n (NumberNotation.signText negative ++
      (digitsOf d.coefficient ++ List.replicate zeros '0' ++ ['.', '0'])) ∧
        CountsAs n { d with negative } := by
  have hdigits := digits_digitsOf d.coefficient
  have hwhole : Digits (digitsOf d.coefficient ++ List.replicate zeros '0') := by
    refine ⟨List.append_ne_nil_of_left_ne_nil hdigits.1 _, ?_⟩
    intro c hc
    rcases List.mem_append.1 hc with hc | hc
    · exact hdigits.2 c hc
    · rw [(List.mem_replicate.1 hc).2]
      rfl
  have hzero : digitsOf d.coefficient ++ List.replicate zeros '0' = ['0'] ∨
      (digitsOf d.coefficient ++ List.replicate zeros '0').head? ≠ some '0' := by
    rcases hplain with hne | rfl
    · obtain ⟨c, digits, heq, -⟩ := hdigits.head
      have hhead := head?_digitsOf hne
      rw [heq] at hhead ⊢
      exact .inr hhead
    · rw [List.replicate_zero, List.append_nil]
      exact digitsOf_head_or
  -- the literal says one zero more than the decimal, and an exponent for it
  have hvalue : digitsValue (digitsOf d.coefficient ++ List.replicate zeros '0' ++ ['0']) =
      d.coefficient * 10 ^ (zeros + 1) := by
    rw [List.append_assoc, ← List.replicate_succ', digitsValue_zeros, digitsValue_digitsOf]
  have hfraction : SpellsFraction ['0'] ['.', '0'] := .some (by decide)
  refine exists_spellsNumber negative hwhole hzero ?_ hfraction .none (.inl (by decide)) ?_
  · rw [List.length_append, List.length_replicate]
    omega
  · rw [hvalue, hexponent]
    exact Decimal.toBinary64_shift negative d.coefficient (by rw [Decimal.decisiveExponent]; omega)

/-- Where the point falls among the digits. -/
theorem exists_spells_split (negative : Bool) {d : Decimal} {k : Nat}
    (hexponent : d.exponent = -((k + 1 : Nat) : Int))
    (hsize : (digitsOf d.coefficient).length ≤ 16 + (k + 1))
    (hinside : k + 1 < (digitsOf d.coefficient).length) :
    ∃ n, SpellsNumber n (NumberNotation.signText negative ++
      ((digitsOf d.coefficient).take ((digitsOf d.coefficient).length - (k + 1)) ++
        '.' :: (digitsOf d.coefficient).drop ((digitsOf d.coefficient).length - (k + 1)))) ∧
        CountsAs n { d with negative } := by
  obtain ⟨c, digits, heq, hc⟩ := (digits_digitsOf d.coefficient).head
  have hne : d.coefficient ≠ 0 := by
    intro hzero
    rw [hzero] at hinside
    exact absurd hinside (by show ¬(k + 1 < 1); omega)
  have hhead := head?_digitsOf hne
  have hdigits := (digits_digitsOf d.coefficient).2
  have hsplit := List.take_append_drop ((digitsOf d.coefficient).length - (k + 1))
    (digitsOf d.coefficient)
  -- the cut leaves a digit on either side
  obtain ⟨n, hn⟩ : ∃ n, (digitsOf d.coefficient).length - (k + 1) = n + 1 :=
    ⟨(digitsOf d.coefficient).length - (k + 1) - 1, by omega⟩
  have hwhole : Digits ((digitsOf d.coefficient).take (n + 1)) := by
    refine ⟨?_, fun c hc => hdigits c (List.mem_of_mem_take hc)⟩
    rw [heq, List.take_succ_cons]
    exact List.cons_ne_nil _ _
  have hfraction : Digits ((digitsOf d.coefficient).drop (n + 1)) := by
    refine ⟨?_, fun c hc => hdigits c (List.mem_of_mem_drop hc)⟩
    rw [ne_eq, List.drop_eq_nil_iff]
    omega
  have hstart : ((digitsOf d.coefficient).take (n + 1)).head? ≠ some '0' := by
    rw [heq] at hhead ⊢
    exact hhead
  rw [hn] at hsplit ⊢
  have hspelled := exists_spellsNumber (d := { d with negative }) negative hwhole (.inr hstart)
    (by rw [List.length_take]; omega) (.some hfraction) .none (.inl hfraction.1) (by
      rw [hsplit, digitsValue_digitsOf, List.length_drop, hexponent]
      show Decimal.toBinary64 ⟨_, _, 0 - _⟩ = _
      rw [Int.zero_sub]
      congr 4
      omega)
  rw [List.append_nil] at hspelled
  exact hspelled

/-- Where the point falls in front of the digits. -/
theorem exists_spells_below (negative : Bool) {d : Decimal} {k : Nat}
    (hexponent : d.exponent = -((k + 1 : Nat) : Int))
    (hbefore : (digitsOf d.coefficient).length ≤ k + 1) :
    ∃ n, SpellsNumber n (NumberNotation.signText negative ++ ('0' :: '.' ::
      (List.replicate (k + 1 - (digitsOf d.coefficient).length) '0' ++ digitsOf d.coefficient))) ∧
        CountsAs n { d with negative } := by
  have hfraction : Digits (List.replicate (k + 1 - (digitsOf d.coefficient).length) '0' ++
      digitsOf d.coefficient) :=
    ⟨List.append_ne_nil_of_right_ne_nil _ (digits_digitsOf _).1,
      digits_replicate _ (digits_digitsOf _).2⟩
  have hvalue : digitsValue (['0'] ++ (List.replicate (k + 1 - (digitsOf d.coefficient).length) '0'
      ++ digitsOf d.coefficient)) = d.coefficient := by
    show digitsValue (List.replicate _ '0' ++ _) = _
    rw [digitsValue_zeros_append, digitsValue_digitsOf]
  have hlength : (List.replicate (k + 1 - (digitsOf d.coefficient).length) '0' ++
      digitsOf d.coefficient).length = k + 1 := by
    rw [List.length_append, List.length_replicate]
    omega
  have hwhole : Digits ['0'] := by decide
  have hspelled := exists_spellsNumber (d := { d with negative }) negative hwhole (.inl rfl)
    (by decide) (.some hfraction) .none (.inl hfraction.1) (by
      rw [hvalue, hlength, hexponent]
      show Decimal.toBinary64 ⟨_, _, 0 - _⟩ = _
      rw [Int.zero_sub])
  rw [List.append_nil] at hspelled
  exact hspelled

/-- The exponent of a written number, with its sign in any case. -/
theorem spellsExponent_written (exponent : Int) : SpellsExponent (some exponent)
    ('e' :: ((if exponent < 0 then ['-'] else ['+']) ++ digitsOf exponent.natAbs)) := by
  have hmark : 'e' = 'e' ∨ 'e' = 'E' := .inl rfl
  have hdigits := digits_digitsOf exponent.natAbs
  have hvalue := digitsValue_digitsOf exponent.natAbs
  by_cases hneg : exponent < 0
  · have hspelled := SpellsExponent.some hmark .minus hdigits
    have hsigned : signed true exponent.natAbs = exponent := by
      show -(exponent.natAbs : Int) = exponent
      omega
    rw [hvalue, hsigned] at hspelled
    rw [if_pos hneg]
    exact hspelled
  · have hspelled := SpellsExponent.some hmark .plus hdigits
    have hsigned : signed false exponent.natAbs = exponent := by
      show (exponent.natAbs : Int) = exponent
      omega
    rw [hvalue, hsigned] at hspelled
    rw [if_neg hneg]
    exact hspelled

/-- One digit, the others behind a point, and an exponent. -/
theorem exists_spells_scientific (negative : Bool) {d : Decimal} (exponent : Int)
    (hexponent : exponent = d.exponent + ((digitsOf d.coefficient).length - 1 : Nat)) :
    ∃ n, SpellsNumber n (NumberNotation.signText negative ++
      NumberNotation.scientificText (digitsOf d.coefficient) exponent) ∧
        CountsAs n { d with negative } := by
  have hexp := spellsExponent_written exponent
  -- the exponent counts the digits that go behind the point
  have hvalue := digitsValue_digitsOf d.coefficient
  have hdigits := (digits_digitsOf d.coefficient).2
  obtain ⟨c, digits, heq, hc⟩ := (digits_digitsOf d.coefficient).head
  rw [heq] at hvalue hdigits hexponent ⊢
  have hstart : [c] = ['0'] ∨ [c].head? ≠ some '0' := by
    by_cases hzero : c = '0'
    · exact .inl (by rw [hzero])
    · exact .inr (by simpa using hzero)
  have hwhole : Digits [c] := ⟨by simp, by simpa using hc⟩
  have hfraction : SpellsFraction digits (if digits.length + 1 ≤ 1 then [] else '.' :: digits) := by
    by_cases hnil : digits = []
    · rw [if_pos (by rw [hnil]; decide), hnil]
      exact .none
    · have hpos := List.length_pos_iff.2 hnil
      rw [if_neg (by omega)]
      exact .some ⟨hnil, fun c hc => hdigits c (List.mem_cons_of_mem _ hc)⟩
  have hspelled := exists_spellsNumber (d := { d with negative }) negative hwhole hstart
    (show 1 ≤ 16 by decide) hfraction hexp (.inr (by simp)) (by
      show Decimal.toBinary64 ⟨negative, digitsValue (c :: digits), exponent - digits.length⟩ = _
      rw [hvalue, hexponent, List.length_cons, Nat.add_sub_cancel, Int.add_sub_cancel])
  have htext : [c] ++ ((if digits.length + 1 ≤ 1 then [] else '.' :: digits) ++
      'e' :: ((if exponent < 0 then ['-'] else ['+']) ++ digitsOf exponent.natAbs)) =
      NumberNotation.scientificText (c :: digits) exponent := by
    unfold NumberNotation.scientificText
    by_cases hneg : exponent < 0 <;> simp [hneg]
  rw [htext] at hspelled
  exact hspelled

/-- The text of a decimal that is the shortest one of a double. -/
theorem exists_spells_sizeText (negative : Bool) {d : Decimal}
    (hplain : d.coefficient ≠ 0 ∨ d.exponent = 0) :
    ∃ n, SpellsNumber n (NumberNotation.signText negative ++ NumberNotation.stored.sizeText d) ∧
      CountsAs n { d with negative } := by
  obtain ⟨sign, coefficient, exponent⟩ := d
  -- four forms, by the notation and by where the point falls
  unfold NumberNotation.sizeText
  simp only at hplain ⊢
  have hlength := List.length_pos_iff.2 (digits_digitsOf coefficient).1
  split
  · next hpositional =>
    simp only [NumberNotation.stored, Bool.and_eq_true, decide_eq_true_eq] at hpositional
    obtain ⟨-, hsize⟩ := hpositional
    cases exponent with
    | ofNat zeros =>
      have hsize : (zeros : Int) + ((digitsOf coefficient).length - 1 : Nat) ≤ 15 := hsize
      exact exists_spells_padded (d := ⟨sign, coefficient, .ofNat zeros⟩) negative rfl
        (show zeros + (digitsOf coefficient).length ≤ 16 by omega)
        (hplain.imp_right fun h => Int.ofNat.inj h)
    | negSucc k =>
      have hsize : -((k + 1 : Nat) : Int) + ((digitsOf coefficient).length - 1 : Nat) ≤ 15 := hsize
      unfold NumberNotation.positionalText
      simp only
      split
      · next hinside =>
        exact exists_spells_split (d := ⟨sign, coefficient, .negSucc k⟩) negative rfl
          (show (digitsOf coefficient).length ≤ 16 + (k + 1) by omega) hinside
      · next hbefore =>
        exact exists_spells_below (d := ⟨sign, coefficient, .negSucc k⟩) negative rfl
          (show (digitsOf coefficient).length ≤ k + 1 by omega)
  · exact exists_spells_scientific (d := ⟨sign, coefficient, exponent⟩) negative _ rfl

/-- **A finite double is written as a literal that counts as it.** -/
theorem spellsNumber_floatChars {x : Binary64} (h : x.isFinite = true) :
    ∃ n, SpellsNumber n (floatChars x) ∧ n.toInt? = none ∧ n.reading.toBinary64 = x := by
  cases x with
  | finite negative m =>
    have hplain : (m.shortest .toEven).coefficient ≠ 0 ∨ (m.shortest .toEven).exponent = 0 :=
      (m.shortest_coefficient .toEven).imp_right fun h => by rw [h]
    obtain ⟨n, hspelled, hwhole, hlong, hread⟩ := exists_spells_sizeText negative hplain
    obtain ⟨hshortest, hsign⟩ := m.toBinary64_shortest .toEven
    refine ⟨n, ?_, ?_, ?_⟩
    · rw [floatChars, if_pos h]
      exact hspelled
    · rw [Numeral.toInt?, hwhole]
      rfl
    · rw [Numeral.reading, hlong, if_neg (by simp), hread]
      -- the shortest digits carry no sign of their own
      generalize m.shortest .toEven = d at hshortest hsign
      obtain ⟨_, coefficient, exponent⟩ := d
      simp only at hsign
      subst hsign
      exact Decimal.toBinary64_sign hshortest negative
  | _ => exact absurd h (by simp [Binary64.isFinite])

end StagedRollout
