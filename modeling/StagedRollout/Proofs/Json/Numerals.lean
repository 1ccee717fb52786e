/-
# StagedRollout.Proofs.Json.Numerals -- numerals that can be spelled

A numeral is three pieces of data, and not every combination of them has a text. The scanner and
the grammar only make such as `Numeral.Plain` describes: without point and exponent a numeral is
an integer with no scale, and one with more digits than are told apart is beyond every machine
integer. So what is read as an integer is never one of the overlong ones.
-/
import StagedRollout.Proofs.Json.Grammar
import Mathlib.Data.List.Induction

namespace StagedRollout

/- Powers of natural numbers are the core library's own. -/
attribute [local instance (2000)] instPowNat

/-! ## What a tree may hold -/

namespace JsonTree

/-- A number counts as a finite double. -/
def InRange : JsonTree → Prop
  | .number numeral => numeral.reading.toBinary64.isFinite = true
  | _ => True

/-- No key of an object is repeated. -/
def DistinctKeys : JsonTree → Prop
  | .object members => (members.map Prod.fst).Nodup
  | _ => True

end JsonTree

/-- What is true of every numeral that can be spelled: without point and exponent it is a plain
integer, and one that has too many digits is beyond every machine integer. -/
structure Numeral.Plain (n : Numeral) : Prop where
  exponent : n.whole = true → n.decimal.exponent = 0
  overlong : n.overlong = true → Numeral.unsignedSpan ≤ n.decimal.coefficient

/-- A number is a numeral that can be spelled. -/
def JsonTree.PlainNumber : JsonTree → Prop
  | .number numeral => numeral.Plain
  | _ => True

/-- A value that a typed reader has no trouble with, whatever it is. -/
def JsonTree.Regular (tree : JsonTree) : Prop :=
  tree.PlainNumber ∧ tree.InRange ∧ tree.DistinctKeys

/-! ## Numerals that can be spelled -/

theorem digitsValue_append (digits : List Char) (c : Char) :
    digitsValue (digits ++ [c]) = 10 * digitsValue digits + (c.toNat - '0'.toNat) := by
  rw [digitsValue, digitsValue, Nat.ofDigitChars_append]
  rfl

/-- Digits behind a digit that is not zero raise the value tenfold each. -/
theorem pow_le_digitsValue {c : Char} (hdigit : c.isDigit = true) (hzero : c ≠ '0')
    (digits : List Char) : 10 ^ digits.length ≤ digitsValue (c :: digits) := by
  induction digits using List.reverseRecOn with
  | nil =>
    have hc : '0'.toNat < c.toNat := by
      simp only [Char.isDigit, Bool.and_eq_true, decide_eq_true_eq] at hdigit
      have hne : c.toNat ≠ '0'.toNat := fun h => hzero (Char.toNat_inj.1 h)
      have hle : '0'.toNat ≤ c.toNat := hdigit.1
      omega
    rw [← List.nil_append [c], digitsValue_append]
    show 1 ≤ _
    omega
  | append_singleton digits d ih =>
    rw [← List.cons_append, digitsValue_append, List.length_append, List.length_singleton,
      Nat.pow_succ]
    omega

theorem SpellsNumber.plain {numeral : Numeral} {text : List Char}
    (h : SpellsNumber numeral text) : numeral.Plain := by
  obtain ⟨negative, hwhole, hzero, hfraction, hexponent⟩ := h
  constructor
  · intro hplain
    simp only [Bool.decide_and, Bool.and_eq_true, decide_eq_true_eq] at hplain
    obtain ⟨rfl, rfl⟩ := hplain
    rfl
  · intro hlong
    rw [decide_eq_true_eq, Numeral.toldDigits] at hlong
    obtain ⟨c, digits, rfl, hc⟩ := hwhole.head
    rw [List.length_cons] at hlong
    have hne : c ≠ '0' := by
      rintro rfl
      rcases hzero with hzero | hzero
      · rw [(List.cons.inj hzero).2] at hlong
        exact absurd hlong (by decide)
      · exact hzero rfl
    refine Nat.le_trans (m := 10 ^ (20 : Nat)) (by decide) ?_
    refine Nat.le_trans ?_ (pow_le_digitsValue hc hne _)
    refine Nat.pow_le_pow_right (by decide) ?_
    show 20 ≤ (digits ++ _).length
    rw [List.length_append]
    omega

mutual

/-- The numbers of a spelled tree are numerals that can be spelled. -/
theorem plainNumber_of_spells : ∀ {tree : JsonTree} {text : List Char}, Spells tree text →
    tree.Every JsonTree.PlainNumber
  | _, _, .null => trivial
  | _, _, .true => trivial
  | _, _, .false => trivial
  | _, _, .number h => h.plain
  | _, _, .text _ => trivial
  | _, _, .emptyArray _ => ⟨trivial, trivial⟩
  | _, _, .array h => ⟨trivial, plainNumber_of_spellsItems h⟩
  | _, _, .emptyObject _ => ⟨trivial, trivial⟩
  | _, _, .object h => ⟨trivial, plainNumber_of_spellsMembers h⟩

theorem plainNumber_of_spellsItems : ∀ {items : List JsonTree} {text : List Char},
    SpellsItems items text → EveryItem JsonTree.PlainNumber items
  | _, _, .last _ h _ => ⟨plainNumber_of_spells h, trivial⟩
  | _, _, .more _ h _ hitems => ⟨plainNumber_of_spells h, plainNumber_of_spellsItems hitems⟩

theorem plainNumber_of_spellsMembers : ∀ {members : List (String × JsonTree)} {text : List Char},
    SpellsMembers members text → EveryMember JsonTree.PlainNumber members
  | _, _, .last _ h _ => ⟨plainNumber_of_spells h, trivial⟩
  | _, _, .more _ h _ hmembers =>
      ⟨plainNumber_of_spells h, plainNumber_of_spellsMembers hmembers⟩

end

theorem plainNumber_of_spellsWhole {tree : JsonTree} {text : List Char}
    (h : SpellsWhole tree text) : tree.Every JsonTree.PlainNumber := by
  obtain ⟨before, spelled, after, -, hspelled, -⟩ := h
  exact plainNumber_of_spells hspelled

namespace Numeral

theorem toInt?_eq_some {n : Numeral} {i : Int} (h : n.toInt? = some i) :
    n.whole = true ∧ n.decimal.coefficient < unsignedSpan ∧ i.natAbs = n.decimal.coefficient ∧
      decide (i < 0) = n.decimal.negative := by
  unfold toInt? at h
  by_cases hwhole : n.whole = true
  · rw [if_pos hwhole] at h
    refine ⟨hwhole, ?_⟩
    cases hneg : n.decimal.negative with
    | true =>
      simp only [hneg, if_true, Option.ite_none_right_eq_some, Option.some.injEq] at h
      obtain ⟨⟨hne, hle⟩, rfl⟩ := h
      refine ⟨Nat.lt_of_le_of_lt hle (by decide), by omega, ?_⟩
      rw [decide_eq_true_eq]
      omega
    | false =>
      simp only [hneg, Bool.false_eq_true, if_false, Option.ite_none_right_eq_some,
        Option.some.injEq] at h
      obtain ⟨hlt, rfl⟩ := h
      refine ⟨hlt, by omega, ?_⟩
      rw [decide_eq_false_iff_not]
      omega
  · rw [if_neg hwhole] at h
    exact absurd h (by simp)

theorem toInt?_eq_natCast {n : Numeral} {k : Nat} (hk : k < unsignedSpan) :
    n.toInt? = some (k : Int) ↔
      n.whole = true ∧ n.decimal.negative = false ∧ n.decimal.coefficient = k := by
  constructor
  · intro h
    obtain ⟨hwhole, -, habs, hneg⟩ := toInt?_eq_some h
    refine ⟨hwhole, ?_, habs ▸ Int.natAbs_natCast k⟩
    rw [← hneg, decide_eq_false_iff_not]
    omega
  · rintro ⟨hwhole, hneg, rfl⟩
    simp [toInt?, hwhole, hneg, hk]

/-- A literal that denotes an integer counts as that integer. -/
theorem reading_of_toInt? {n : Numeral} {i : Int} (hplain : n.Plain) (h : n.toInt? = some i) :
    n.reading = ⟨decide (i < 0), i.natAbs, 0⟩ := by
  obtain ⟨hwhole, hlt, habs, hneg⟩ := toInt?_eq_some h
  have hshort : n.overlong = false := by
    cases hlong : n.overlong with
    | false => rfl
    | true =>
      have hfar := hplain.overlong hlong
      omega
  rw [reading, hshort, habs, hneg, ← hplain.exponent hwhole]
  rfl

theorem value?_of_toInt? {n : Numeral} {i : Int} (h : n.toInt? = some i) :
    n.value? = some (.int i) := by
  unfold value?
  rw [h]

/-- The value of a literal is an integer or a finite float. -/
theorem value?_eq_some {n : Numeral} {json : Json} (h : n.value? = some json) :
    (∃ i, n.toInt? = some i ∧ json = .int i) ∨ ∃ x, json = .float x ∧ x.isFinite = true := by
  unfold value? at h
  split at h
  · next i hi => exact .inl ⟨i, hi, (Option.some.inj h).symm⟩
  · split at h
    · exact .inr ⟨_, (Option.some.inj h).symm, rfl⟩
    · exact absurd h (by simp)

/-- A numeral that counts as a finite double has a value. -/
theorem exists_value? {n : Numeral} (h : n.reading.toBinary64.isFinite = true) :
    ∃ json, n.value? = some json := by
  unfold value?
  split
  · exact ⟨_, rfl⟩
  · cases hread : n.reading.toBinary64 with
    | finite negative m => exact ⟨_, rfl⟩
    | _ => rw [hread] at h; exact absurd h Bool.false_ne_true

end Numeral

end StagedRollout
