/-
# StagedRollout.Proofs.Json.Nesting -- how many brackets a text has open at once

How deep a text is nested can be seen without its tree: `openAtOnce` walks over the characters,
counts brackets up and down, and passes over those inside of string literals. For a text that
spells a tree the count is the depth of the tree (`openAtOnce_of_spells`).
-/
import StagedRollout.Proofs.Json.Grammar

namespace StagedRollout

/-- Where a character of a JSON text stands. -/
inductive Standing
  | outside
  | inText
  | afterBackslash

/-- The largest number of open brackets from a character on, `n` being open before it. -/
def deepest : Standing → (n : Nat) → List Char → Nat
  | _, n, [] => n
  | .inText, n, c :: rest =>
    if c = '"' then deepest .outside n rest
    else if c = '\\' then deepest .afterBackslash n rest
    else deepest .inText n rest
  | .afterBackslash, n, _ :: rest => deepest .inText n rest
  | .outside, n, c :: rest =>
    if c = '"' then deepest .inText n rest
    else if c = '[' ∨ c = '\x7b' then deepest .outside (n + 1) rest
    else if c = ']' ∨ c = '\x7d' then max n (deepest .outside (n - 1) rest)
    else deepest .outside n rest

/-- How many arrays and objects of a text are open at once. -/
def openAtOnce (text : List Char) : Nat := deepest .outside 0 text

/-! ## Texts without brackets -/

/-- What is open already counts, whatever follows. -/
theorem le_deepest (standing : Standing) (n : Nat) (text : List Char) :
    n ≤ deepest standing n text := by
  induction text generalizing standing n with
  | nil => cases standing <;> exact Nat.le_refl _
  | cons c rest ih =>
    cases standing with
    | inText =>
      unfold deepest
      split
      · exact ih _ _
      · split <;> exact ih _ _
    | afterBackslash => exact ih _ _
    | outside =>
      unfold deepest
      split
      · exact ih _ _
      · split
        · exact Nat.le_trans (Nat.le_succ n) (ih _ _)
        · split
          · exact Nat.le_max_left _ _
          · exact ih _ _

/-- A character that opens and closes nothing. -/
def Neutral (c : Char) : Prop := c ∉ ['"', '[', '\x7b', ']', '\x7d']

instance (c : Char) : Decidable (Neutral c) := inferInstanceAs (Decidable (c ∉ _))

theorem deepest_cons {c : Char} (h : Neutral c) (n : Nat) (rest : List Char) :
    deepest .outside n (c :: rest) = deepest .outside n rest := by
  simp only [Neutral, List.mem_cons, not_or] at h
  simp only [deepest, h, or_self, if_false]

/-- A stretch of neutral characters leaves the count as it is. -/
theorem deepest_neutral {text : List Char} (h : ∀ c ∈ text, Neutral c) (n : Nat)
    (rest : List Char) : deepest .outside n (text ++ rest) = deepest .outside n rest := by
  induction text with
  | nil => rfl
  | cons c text ih =>
    rw [List.cons_append, deepest_cons (h c (by simp))]
    exact ih fun d hd => h d (List.mem_cons_of_mem c hd)

theorem neutral_of_isDigit {c : Char} (h : c.isDigit = true) : Neutral c := by
  intro hmem
  simp only [List.mem_cons, List.not_mem_nil, or_false] at hmem
  rcases hmem with rfl | rfl | rfl | rfl | rfl <;> exact absurd h (by decide)

theorem Blank.neutral {text : List Char} (h : Blank text) : ∀ c ∈ text, Neutral c := by
  intro c hc hmem
  have := h c hc
  simp only [List.mem_cons, List.not_mem_nil, or_false] at hmem
  rcases hmem with rfl | rfl | rfl | rfl | rfl <;> exact absurd this (by decide)

theorem Digits.neutral {text : List Char} (h : Digits text) : ∀ c ∈ text, Neutral c :=
  fun c hc => neutral_of_isDigit (h.2 c hc)

/-- Numbers are spelled without quotes and brackets: by digits, signs, a point and the mark of an
exponent. -/
theorem SpellsNumber.neutral {numeral : Numeral} {text : List Char}
    (h : SpellsNumber numeral text) : ∀ c ∈ text, Neutral c := by
  obtain ⟨negative, hwhole, -, hfraction, hexponent⟩ := h
  -- no part of a number holds a quote or a bracket: its sign, digits, fraction and exponent
  intro c hc
  rw [List.mem_append, List.mem_append, List.mem_append] at hc
  rcases hc with hc | hc | hc | hc
  · cases negative with
    | false => exact absurd hc (by simp)
    | true => rw [if_pos rfl, List.mem_singleton] at hc; subst hc; decide
  · exact hwhole.neutral c hc
  · cases hfraction with
    | none => exact absurd hc (by simp)
    | some hdigits =>
      rcases List.mem_cons.1 hc with rfl | hc
      · decide
      · exact hdigits.neutral c hc
  · cases hexponent with
    | none => exact absurd hc (by simp)
    | some hmark hsign hdigits =>
      rw [List.mem_cons, List.mem_append] at hc
      rcases hc with rfl | hc | hc
      · rcases hmark with rfl | rfl <;> decide
      · cases hsign with
        | none => exact absurd hc (by simp)
        | plus => rw [List.mem_singleton] at hc; subst hc; decide
        | minus => rw [List.mem_singleton] at hc; subst hc; decide
      · exact hdigits.neutral c hc

/-! ## String literals -/

theorem deepest_quote (n : Nat) (rest : List Char) :
    deepest .outside n ('"' :: rest) = deepest .inText n rest := rfl

/-- Inside a string literal brackets do not count. -/
theorem deepest_inText {c : Char} (hquote : c ≠ '"') (hslash : c ≠ '\\') (n : Nat)
    (rest : List Char) : deepest .inText n (c :: rest) = deepest .inText n rest := by
  rw [deepest, if_neg hquote, if_neg hslash]

/-- A hexadecimal digit neither ends a string literal nor escapes anything. -/
theorem hexValue?_ne {c : Char} {value : Nat} (h : hexValue? c = some value) :
    c ≠ '"' ∧ c ≠ '\\' := by
  constructor <;> rintro rfl <;> exact absurd h (by simp [hexValue?])

/-- The digits of a code unit neither end the literal nor escape anything. -/
theorem deepest_codeUnit {a b c d : Char} {unit : Nat} (h : codeUnit? a b c d = some unit)
    (n : Nat) (rest : List Char) :
    deepest .inText n ('\\' :: 'u' :: a :: b :: c :: d :: rest) = deepest .inText n rest := by
  simp only [codeUnit?, Option.bind_eq_bind, Option.bind_eq_some_iff] at h
  obtain ⟨_, ha, _, hb, _, hc, _, hd, -⟩ := h
  show deepest .inText n (a :: b :: c :: d :: rest) = _
  rw [deepest_inText (hexValue?_ne ha).1 (hexValue?_ne ha).2,
    deepest_inText (hexValue?_ne hb).1 (hexValue?_ne hb).2,
    deepest_inText (hexValue?_ne hc).1 (hexValue?_ne hc).2,
    deepest_inText (hexValue?_ne hd).1 (hexValue?_ne hd).2]

/-- A spelled string literal leaves the count as it is and ends outside. -/
theorem deepest_text {content text : List Char} (h : SpellsText content text) (n : Nat)
    (rest : List Char) : deepest .inText n (text ++ rest) = deepest .outside n rest := by
  induction h with
  -- along the literal, which its escapes do not leave
  | close => rfl
  | plain hquote hslash _ _ ih => rw [List.cons_append, deepest_inText hquote hslash, ih]
  | letter _ _ ih => exact ih
  | unit hunit _ _ _ ih => exact (deepest_codeUnit hunit n _).trans ih
  | pair hlead _ htrail _ _ ih =>
    exact (deepest_codeUnit hlead n _).trans ((deepest_codeUnit htrail n _).trans ih)

/-- So does a key with its blanks and its colon. -/
theorem deepest_key {key : String} {text : List Char} (h : SpellsKey key text) (n : Nat)
    (rest : List Char) : deepest .outside n (text ++ rest) = deepest .outside n rest := by
  obtain ⟨hbefore, htext, hmiddle, hafter⟩ := h
  simp only [List.append_assoc, List.cons_append]
  rw [deepest_neutral hbefore.neutral, deepest_quote, deepest_text htext,
    deepest_neutral hmiddle.neutral, deepest_cons (by decide), deepest_neutral hafter.neutral]

/-! ## Values -/

theorem deepest_open {c : Char} (h : c = '[' ∨ c = '\x7b') (n : Nat) (rest : List Char) :
    deepest .outside n (c :: rest) = deepest .outside (n + 1) rest := by
  rcases h with rfl | rfl <;> rfl

/-- At a closing bracket the count so far is compared with what comes after it. -/
theorem deepest_close {c : Char} (h : c = ']' ∨ c = '\x7d') (n : Nat) (rest : List Char) :
    deepest .outside (n + 1) (c :: rest) = max (n + 1) (deepest .outside n rest) := by
  rcases h with rfl | rfl <;> rfl

theorem max_deepest (n : Nat) (rest : List Char) :
    max n (deepest .outside n rest) = deepest .outside n rest :=
  Nat.max_eq_right (le_deepest _ _ _)

mutual

/-- A value that starts with `n` brackets open reaches as many more as it is deep. -/
theorem deepest_spells : ∀ {tree : JsonTree} {text : List Char}, Spells tree text →
    ∀ (n : Nat) (rest : List Char), deepest .outside n (text ++ rest) =
      max (n + tree.depth) (deepest .outside n rest)
  | _, _, .null, n, rest => (max_deepest n rest).symm
  | _, _, .true, n, rest => (max_deepest n rest).symm
  | _, _, .false, n, rest => (max_deepest n rest).symm
  | _, _, .number h, n, rest =>
      (deepest_neutral h.neutral n rest).trans (max_deepest n rest).symm
  | _, _, .text h, n, rest => (deepest_text h n rest).trans (max_deepest n rest).symm
  | _, _, .emptyArray h, n, rest => by
      rw [List.cons_append, List.append_assoc, deepest_open (.inl rfl),
        deepest_neutral h.neutral]
      exact deepest_close (.inl rfl) n rest
  | _, _, .array h, n, rest => deepest_items h n rest
  | _, _, .emptyObject h, n, rest => by
      rw [List.cons_append, List.append_assoc, deepest_open (.inr rfl),
        deepest_neutral h.neutral]
      exact deepest_close (.inr rfl) n rest
  | _, _, .object h, n, rest => deepest_members h n rest

/-- Items count one bracket deeper than their array, up to the bracket that closes it. -/
theorem deepest_items : ∀ {items : List JsonTree} {text : List Char}, SpellsItems items text →
    ∀ (n : Nat) (rest : List Char), deepest .outside (n + 1) (text ++ rest) =
      max (n + (itemsDepth items + 1)) (deepest .outside n rest)
  | _, _, .last hbefore hitem hafter, n, rest => by
      simp only [List.append_assoc, deepest_neutral hbefore.neutral, deepest_spells hitem,
        deepest_neutral hafter.neutral, itemsDepth]
      rw [List.singleton_append, deepest_close (.inl rfl)]
      omega
  | _, _, .more hbefore hitem hafter hitems, n, rest => by
      -- the item comes back to where the array left off, and so do those behind the comma
      simp only [List.append_assoc, deepest_neutral hbefore.neutral, deepest_spells hitem,
        deepest_neutral hafter.neutral, itemsDepth]
      rw [List.cons_append, deepest_cons (by decide), deepest_items hitems]
      omega

/-- Members count one bracket deeper than their object, up to the brace that closes it. -/
theorem deepest_members : ∀ {members : List (String × JsonTree)} {text : List Char},
    SpellsMembers members text → ∀ (n : Nat) (rest : List Char),
      deepest .outside (n + 1) (text ++ rest) =
        max (n + (membersDepth members + 1)) (deepest .outside n rest)
  | _, _, .last hkey hvalue hafter, n, rest => by
      simp only [List.append_assoc, deepest_key hkey, deepest_spells hvalue,
        deepest_neutral hafter.neutral, membersDepth]
      rw [List.singleton_append, deepest_close (.inr rfl)]
      omega
  | _, _, .more hkey hvalue hafter hmembers, n, rest => by
      simp only [List.append_assoc, deepest_key hkey, deepest_spells hvalue,
        deepest_neutral hafter.neutral, membersDepth]
      rw [List.cons_append, deepest_cons (by decide), deepest_members hmembers]
      omega

end

/-- The brackets of a text that spells a tree are open as often at once as the tree is deep. -/
theorem openAtOnce_of_spells {tree : JsonTree} {text : List Char} (h : SpellsWhole tree text) :
    openAtOnce text = tree.depth := by
  obtain ⟨before, spelled, after, hbefore, hspelled, hafter, rfl⟩ := h
  have hend : deepest .outside 0 after = 0 := by
    rw [← List.append_nil after, deepest_neutral hafter.neutral]
    rfl
  rw [openAtOnce, deepest_neutral hbefore.neutral, deepest_spells hspelled, hend]
  omega

end StagedRollout
