/-
# StagedRollout.Proofs.Number.TypedNumeral -- which texts are numerals that people type

`SpellsDecimal d text` says, with no reader in sight, that a text is a numeral for the decimal `d`:
a sign or none, digits with at most one point among or around them and at least one digit in all,
and an exponent or none. Exactly these texts and the words for infinity and for what is not a number
are read (`Binary64.ofText?_eq_some`), a numeral as the double of its decimal.
-/
import Mathlib.Data.List.TakeWhile
import StagedRollout.Number.FreeText
import StagedRollout.Proofs.Json.ScanSpelled

namespace StagedRollout

/-! ## The numerals -/

/-- What may stand behind the whole digits: nothing, or a point and fraction digits, possibly
none. -/
inductive SpellsPointed : List Char → List Char → Prop
  | none : SpellsPointed [] []
  | some {digits : List Char} : (∀ c ∈ digits, c.isDigit = true) →
      SpellsPointed digits ('.' :: digits)

/-- A numeral without its sign. -/
inductive SpellsUnsigned (negative : Bool) : Decimal → List Char → Prop
  | parts {whole fraction pointed exponentText : List Char} {exponent : Option Int} :
      (∀ c ∈ whole, c.isDigit = true) → SpellsPointed fraction pointed →
      whole ≠ [] ∨ fraction ≠ [] → SpellsExponent exponent exponentText →
      SpellsUnsigned negative
        ⟨negative, digitsValue (whole ++ fraction), exponent.getD 0 - fraction.length⟩
        (whole ++ (pointed ++ exponentText))

/-- A numeral, and the decimal that it stands for. -/
inductive SpellsDecimal : Decimal → List Char → Prop
  | parts {negative : Bool} {d : Decimal} {sign text : List Char} :
      SpellsSign negative sign → SpellsUnsigned negative d text →
      SpellsDecimal d (sign ++ text)

/-! ## Signs -/

/-- What is taken for a sign is one. -/
theorem exists_takeSign (text : List Char) :
    ∃ sign, SpellsSign (takeSign text).1 sign ∧ text = sign ++ (takeSign text).2 := by
  unfold takeSign
  split
  · exact ⟨['-'], .minus, rfl⟩
  · exact ⟨['+'], .plus, rfl⟩
  · exact ⟨[], .none, rfl⟩

/-! ## Exponents -/

/-- An exponent at the end of a text is read as what it says, and nothing else is. -/
theorem exponentPart?_eq_some {text : List Char} {e : Int} :
    Decimal.exponentPart? text = some e ↔
      ∃ exponent : Option Int, SpellsExponent exponent text ∧ exponent.getD 0 = e := by
  constructor
  · intro h
    cases text with
    | nil => exact ⟨none, .none, Option.some.inj h⟩
    | cons mark rest =>
      rw [Decimal.exponentPart?] at h
      split at h
      · next hmark =>
        simp only [Option.ite_none_right_eq_some, Option.some.injEq, List.all_eq_true] at h
        obtain ⟨hdigits, rfl⟩ := h
        obtain ⟨sign, hsign, hrest⟩ := exists_takeSign rest
        have hspells := SpellsExponent.some hmark hsign hdigits
        rw [← hrest] at hspells
        exact ⟨_, hspells, rfl⟩
      · exact absurd h (by simp)
  · rintro ⟨exponent, hexponent, rfl⟩
    cases hexponent with
    | none => rfl
    | @some mark negative sign digits hmark hsign hdigits =>
      have htaken : takeSign (sign ++ (digits ++ [])) = (negative, digits ++ []) :=
        takeSign_spelled hsign hdigits
      rw [List.append_nil] at htaken
      rw [Decimal.exponentPart?, if_pos hmark, htaken]
      exact if_pos ⟨hdigits.1, List.all_eq_true.2 hdigits.2⟩

/-- An exponent starts with a letter. -/
theorem SpellsExponent.head {exponent : Option Int} {text : List Char}
    (h : SpellsExponent exponent text) :
    NoDigit text ∧ ∀ c rest, text = c :: rest → c ≠ '.' := by
  have hhead := h.noDigit Delimited.nil
  rwa [List.append_nil] at hhead

/-! ## Numerals -/

theorem fractionPart_append {fraction pointed rest : List Char} (h : SpellsPointed fraction pointed)
    (hdigit : NoDigit rest) (hpoint : ∀ c rest', rest = c :: rest' → c ≠ '.') :
    Decimal.fractionPart (pointed ++ rest) = (fraction, rest) := by
  cases h with
  | some hdigits => exact takeDigits_append hdigits hdigit
  | none =>
    rw [List.nil_append]
    unfold Decimal.fractionPart
    split
    · exact absurd rfl (hpoint _ _ rfl)
    · rfl

/-- What is taken for a fraction is one. -/
theorem exists_fractionPart (text : List Char) :
    ∃ pointed, SpellsPointed (Decimal.fractionPart text).1 pointed ∧
      text = pointed ++ (Decimal.fractionPart text).2 := by
  unfold Decimal.fractionPart
  split
  · next rest =>
    refine ⟨'.' :: rest.takeWhile Char.isDigit, .some ?_, ?_⟩
    · exact fun c hc => List.mem_takeWhile_imp hc
    · rw [List.cons_append, takeDigits, List.takeWhile_append_dropWhile]
  · exact ⟨[], .none, rfl⟩

theorem SpellsPointed.noDigit {fraction text rest : List Char} (h : SpellsPointed fraction text)
    (hrest : NoDigit rest) : NoDigit (text ++ rest) := by
  cases h with
  | none => exact hrest
  | some _ =>
    intro c rest' heq
    obtain ⟨rfl, -⟩ := List.cons.inj heq
    decide

/-- **The numerals without a sign are what is read as one.** -/
theorem ofUnsignedText?_eq_some {negative : Bool} {text : List Char} {d : Decimal} :
    Decimal.ofUnsignedText? negative text = some d ↔ SpellsUnsigned negative d text := by
  constructor
  · intro h
    rw [Decimal.ofUnsignedText?] at h
    obtain ⟨pointed, hpointed, hafter⟩ := exists_fractionPart (takeDigits text).2
    have htext : text = (takeDigits text).1 ++ (takeDigits text).2 :=
      List.takeWhile_append_dropWhile.symm
    have hwhole : ∀ c ∈ (takeDigits text).1, c.isDigit = true :=
      fun c hc => List.mem_takeWhile_imp hc
    generalize takeDigits text = taken at *
    obtain ⟨whole, afterWhole⟩ := taken
    simp only at h hpointed hafter hwhole htext
    generalize Decimal.fractionPart afterWhole = parts at *
    obtain ⟨fraction, afterFraction⟩ := parts
    simp only at h hpointed hafter
    split at h
    · exact absurd h (by simp)
    · next hsome =>
      obtain ⟨e, he, rfl⟩ := Option.map_eq_some_iff.1 h
      obtain ⟨exponent, hexponent, rfl⟩ := exponentPart?_eq_some.1 he
      rw [htext, hafter]
      exact .parts hwhole hpointed (not_and_or.1 hsome) hexponent
  · rintro ⟨hwhole, hpointed, hsome, hexponent⟩
    obtain ⟨hdigit, hpoint⟩ := hexponent.head
    rw [Decimal.ofUnsignedText?, takeDigits_append hwhole (hpointed.noDigit hdigit)]
    simp only [fractionPart_append hpointed hdigit hpoint]
    rw [if_neg (not_and_or.2 hsome), exponentPart?_eq_some.2 ⟨_, hexponent, rfl⟩]
    rfl

/-- A numeral without its sign starts with a digit or a point. -/
theorem SpellsUnsigned.head {negative : Bool} {d : Decimal} {text : List Char}
    (h : SpellsUnsigned negative d text) :
    ∃ c rest, text = c :: rest ∧ (c.isDigit = true ∨ c = '.') := by
  obtain ⟨hwhole, hpointed, hsome, -⟩ := h
  rename_i whole fraction pointed exponentText exponent
  cases whole with
  | cons c whole => exact ⟨c, _, rfl, .inl (hwhole c List.mem_cons_self)⟩
  | nil =>
    cases hpointed with
    | some _ => exact ⟨'.', _, rfl, .inr rfl⟩
    | none => simp at hsome

/-! ## Words -/

theorem toLower_of_isDigit {c : Char} (h : c.isDigit = true) : c.toLower = c := by
  have hupper : ¬(c.val ≥ 'A'.val ∧ c.val ≤ 'Z'.val) := by
    simp only [Char.isDigit, Bool.and_eq_true, decide_eq_true_eq] at h
    rintro ⟨hA, -⟩
    exact absurd (UInt32.le_trans hA h.2) (by decide)
  exact dif_neg hupper

/-- A word in letters of either case starts with a letter. -/
theorem head_of_lowered {c : Char} {rest : List Char} {word : String} {letter : Char}
    (h : String.ofList ((c :: rest).map Char.toLower) = word)
    (hletter : word.toList.head? = some letter) (hdigit : letter.isDigit = false)
    (hpoint : letter ≠ '.') : c.isDigit = false ∧ c ≠ '.' := by
  subst h
  rw [String.toList_ofList, List.map_cons, List.head?_cons] at hletter
  obtain rfl := Option.some.inj hletter
  constructor
  · by_contra hc
    rw [Bool.not_eq_false] at hc
    rw [toLower_of_isDigit hc, hc] at hdigit
    exact absurd hdigit (by simp)
  · rintro rfl
    exact hpoint rfl

/-- A word stands for no finite number, and starts with a letter. -/
theorem ofWord?_eq_some {negative : Bool} {word : List Char} {x : Binary64}
    (h : Binary64.ofWord? negative word = some x) :
    x.isFinite = false ∧ ∀ c rest, word = c :: rest → c.isDigit = false ∧ c ≠ '.' := by
  unfold Binary64.ofWord? at h
  split at h
  · next hword =>
    obtain rfl := Option.some.inj h
    refine ⟨rfl, ?_⟩
    rintro c rest rfl
    exact head_of_lowered hword rfl (by decide) (by decide)
  · next hword =>
    obtain rfl := Option.some.inj h
    refine ⟨rfl, ?_⟩
    rintro c rest rfl
    exact head_of_lowered hword rfl (by decide) (by decide)
  · next hword =>
    obtain rfl := Option.some.inj h
    refine ⟨rfl, ?_⟩
    rintro c rest rfl
    exact head_of_lowered hword rfl (by decide) (by decide)
  · exact absurd h (by simp)

/-! ## Whole texts -/

namespace Binary64

/-- A numeral is read as the double of its decimal. -/
theorem ofText?_of_spells {text : List Char} {d : Decimal} (h : SpellsDecimal d text) :
    ofText? text = some d.toBinary64 := by
  obtain ⟨hsign, hunsigned⟩ := h
  rename_i negative sign rest
  obtain ⟨c, rest', hrest, hc⟩ := hunsigned.head
  have htaken : takeSign (sign ++ rest) = (negative, rest) := by
    apply takeSign_append hsign
    intro c' rest'' heq
    obtain ⟨rfl, -⟩ := List.cons.inj (hrest.symm.trans heq)
    constructor
    · rintro rfl
      exact absurd hc (by decide)
    · rintro rfl
      exact absurd hc (by decide)
  have hword : ofWord? negative rest = none := by
    cases hword : ofWord? negative rest with
    | none => rfl
    | some x =>
      obtain ⟨hdigit, hpoint⟩ := (ofWord?_eq_some hword).2 c rest' hrest
      rcases hc with hc | hc
      · exact absurd (hdigit.symm.trans hc) (by simp)
      · exact absurd hc hpoint
  rw [ofText?, htaken]
  simp only [hword, ofUnsignedText?_eq_some.2 hunsigned]
  rfl

/-- **What is read as a double** is a numeral, as the double of its decimal, or it is a word, which
stands for no finite number. -/
theorem ofText?_eq_some {text : List Char} {x : Binary64} (h : ofText? text = some x) :
    x.isFinite = false ∨ ∃ d, SpellsDecimal d text ∧ x = d.toBinary64 := by
  obtain ⟨sign, hsign, htext⟩ := exists_takeSign text
  rw [ofText?] at h
  generalize takeSign text = taken at *
  obtain ⟨negative, rest⟩ := taken
  simp only [Option.orElse_eq_orElse, Option.orElse_eq_or, Option.or_eq_some_iff] at h
  rcases h with hword | ⟨-, hdecimal⟩
  · exact .inl (ofWord?_eq_some hword).1
  · obtain ⟨d, hd, rfl⟩ := Option.map_eq_some_iff.1 hdecimal
    rw [htext]
    exact .inr ⟨d, .parts hsign (ofUnsignedText?_eq_some.1 hd), rfl⟩

end Binary64

end StagedRollout
