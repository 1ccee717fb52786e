/-
# StagedRollout.Proofs.Json.Grammar -- what a strict JSON text says

A `JsonTree` is the tree of a JSON text: the members of an object in the order of the text, and
every number as the literal that it is. `Spells tree text` says that a text is that tree spelled
out, by the rules of strict JSON and with no scanner in sight: blanks are allowed between the
parts, whole parts have no leading zero, an escape is one of the eight letters or a code unit, a
surrogate stands in a pair, and no comma is left over.
-/
import StagedRollout.Json.Scan

namespace StagedRollout

/-! ## Trees -/

/-- The tree of a JSON text, with numbers as they are spelled. -/
inductive JsonTree
  | null
  | bool (value : Bool)
  | number (numeral : Numeral)
  | text (content : String)
  | array (items : List JsonTree)
  | object (members : List (String × JsonTree))

mutual

/-- How many arrays and objects of a tree are open at once at its deepest place. -/
def JsonTree.depth : JsonTree → Nat
  | .array items => itemsDepth items + 1
  | .object members => membersDepth members + 1
  | _ => 0

/-- The depth of the deepest of several trees. -/
def itemsDepth : List JsonTree → Nat
  | [] => 0
  | item :: rest => max item.depth (itemsDepth rest)

/-- The depth of the deepest of several members. -/
def membersDepth : List (String × JsonTree) → Nat
  | [] => 0
  | (_, value) :: rest => max value.depth (membersDepth rest)

end

mutual

/-- A property of every value in a tree, the tree itself included. -/
def JsonTree.Every (P : JsonTree → Prop) : JsonTree → Prop
  | .array items => P (.array items) ∧ EveryItem P items
  | .object members => P (.object members) ∧ EveryMember P members
  | tree => P tree

/-- A property of every value in several trees. -/
def EveryItem (P : JsonTree → Prop) : List JsonTree → Prop
  | [] => True
  | item :: rest => item.Every P ∧ EveryItem P rest

/-- A property of every value in several members. -/
def EveryMember (P : JsonTree → Prop) : List (String × JsonTree) → Prop
  | [] => True
  | (_, value) :: rest => value.Every P ∧ EveryMember P rest

end

theorem JsonTree.Every.self {P : JsonTree → Prop} {tree : JsonTree} (h : tree.Every P) :
    P tree := by
  cases tree with
  | array items => exact h.1
  | object members => exact h.1
  | _ => exact h

mutual

/-- Two properties that hold throughout a tree hold throughout it together. -/
theorem every_and {P Q : JsonTree → Prop} : ∀ {tree : JsonTree}, tree.Every P → tree.Every Q →
    tree.Every fun value => P value ∧ Q value
  | .null, hp, hq => ⟨hp, hq⟩
  | .bool _, hp, hq => ⟨hp, hq⟩
  | .number _, hp, hq => ⟨hp, hq⟩
  | .text _, hp, hq => ⟨hp, hq⟩
  | .array _, hp, hq => ⟨⟨hp.1, hq.1⟩, everyItem_and hp.2 hq.2⟩
  | .object _, hp, hq => ⟨⟨hp.1, hq.1⟩, everyMember_and hp.2 hq.2⟩

theorem everyItem_and {P Q : JsonTree → Prop} : ∀ {items : List JsonTree}, EveryItem P items →
    EveryItem Q items → EveryItem (fun value => P value ∧ Q value) items
  | [], _, _ => trivial
  | _ :: _, hp, hq => ⟨every_and hp.1 hq.1, everyItem_and hp.2 hq.2⟩

theorem everyMember_and {P Q : JsonTree → Prop} : ∀ {members : List (String × JsonTree)},
    EveryMember P members → EveryMember Q members →
    EveryMember (fun value => P value ∧ Q value) members
  | [], _, _ => trivial
  | (_, _) :: _, hp, hq => ⟨every_and hp.1 hq.1, everyMember_and hp.2 hq.2⟩

end

theorem every_of_mem {P : JsonTree → Prop} {members : List (String × JsonTree)} {key : String}
    {value : JsonTree} (h : EveryMember P members) (hmem : (key, value) ∈ members) :
    value.Every P := by
  induction members with
  | nil => exact absurd hmem (by simp)
  | cons member rest ih =>
    rcases List.mem_cons.1 hmem with rfl | hrest
    · exact h.1
    · exact ih h.2 hrest

theorem depth_le_of_mem {members : List (String × JsonTree)} {key : String} {value : JsonTree}
    (hmem : (key, value) ∈ members) : value.depth ≤ membersDepth members := by
  induction members with
  | nil => exact absurd hmem (by simp)
  | cons member rest ih =>
    rw [membersDepth]
    rcases List.mem_cons.1 hmem with rfl | hrest
    · exact Nat.le_max_left _ _
    · exact Nat.le_trans (ih hrest) (Nat.le_max_right _ _)

/-! ## Literals -/

/-- A text of blanks, possibly none. -/
def Blank (text : List Char) : Prop := ∀ c ∈ text, isSpacing c = true

instance (text : List Char) : Decidable (Blank text) :=
  List.decidableBAll (fun c => isSpacing c = true) text

theorem blank_nil : Blank [] := by decide

/-- A text of digits, at least one. -/
def Digits (text : List Char) : Prop := text ≠ [] ∧ ∀ c ∈ text, c.isDigit = true

instance (text : List Char) : Decidable (Digits text) :=
  @instDecidableAnd _ _ inferInstance (List.decidableBAll (fun c => c.isDigit = true) text)

theorem Digits.head {text : List Char} (h : Digits text) :
    ∃ c rest, text = c :: rest ∧ c.isDigit = true := by
  obtain ⟨hne, hdigits⟩ := h
  cases text with
  | nil => exact absurd rfl hne
  | cons c rest => exact ⟨c, rest, rfl, hdigits c (by simp)⟩

/-- The fraction digits of a number: none, or those behind a point. -/
inductive SpellsFraction : List Char → List Char → Prop
  | none : SpellsFraction [] []
  | some {digits : List Char} : Digits digits → SpellsFraction digits ('.' :: digits)

/-- The sign of an exponent. A plus says nothing. -/
inductive SpellsSign : Bool → List Char → Prop
  | none : SpellsSign false []
  | plus : SpellsSign false ['+']
  | minus : SpellsSign true ['-']

/-- The exponent of a number: none, or the one behind a letter. -/
inductive SpellsExponent : Option Int → List Char → Prop
  | none : SpellsExponent none []
  | some {mark : Char} {negative : Bool} {sign digits : List Char} :
      mark = 'e' ∨ mark = 'E' → SpellsSign negative sign → Digits digits →
      SpellsExponent (some (signed negative (digitsValue digits))) (mark :: (sign ++ digits))

/-- A number literal, read as the numeral of its parts. -/
inductive SpellsNumber : Numeral → List Char → Prop
  | parts (negative : Bool) {whole fraction fractionText exponentText : List Char}
      {exponent : Option Int} :
      Digits whole → whole = ['0'] ∨ whole.head? ≠ some '0' →
      SpellsFraction fraction fractionText → SpellsExponent exponent exponentText →
      SpellsNumber
        ⟨⟨negative, digitsValue (whole ++ fraction), exponent.getD 0 - fraction.length⟩,
          fraction = [] ∧ exponent = none, Numeral.toldDigits < whole.length⟩
        ((if negative then ['-'] else []) ++ (whole ++ (fractionText ++ exponentText)))

/-- The inside of a string literal with its closing quote, and the characters that it stands
for. -/
inductive SpellsText : List Char → List Char → Prop
  | close : SpellsText [] ['"']
  | plain {c : Char} {content text : List Char} :
      c ≠ '"' → c ≠ '\\' → ¬c < ' ' → SpellsText content text →
      SpellsText (c :: content) (c :: text)
  | letter {letter c : Char} {content text : List Char} :
      letterEscape? letter = some c → SpellsText content text →
      SpellsText (c :: content) ('\\' :: letter :: text)
  | unit {a b c d : Char} {unit : Nat} {content text : List Char} :
      codeUnit? a b c d = some unit → isLeadSurrogate unit = false →
      isTrailSurrogate unit = false → SpellsText content text →
      SpellsText (Char.ofNat unit :: content) ('\\' :: 'u' :: a :: b :: c :: d :: text)
  | pair {a b c d e f g h : Char} {lead trail : Nat} {content text : List Char} :
      codeUnit? a b c d = some lead → isLeadSurrogate lead = true →
      codeUnit? e f g h = some trail → isTrailSurrogate trail = true →
      SpellsText content text →
      SpellsText (pairedChar lead trail :: content)
        ('\\' :: 'u' :: a :: b :: c :: d :: '\\' :: 'u' :: e :: f :: g :: h :: text)

/-- A key with its colon, up to the value. -/
inductive SpellsKey : String → List Char → Prop
  | parts {key : String} {before text middle after : List Char} :
      Blank before → SpellsText key.toList text → Blank middle → Blank after →
      SpellsKey key (before ++ '"' :: (text ++ (middle ++ ':' :: after)))

/-! ## Values -/

mutual

/-- A value spelled out, without blanks around it. -/
inductive Spells : JsonTree → List Char → Prop
  | null : Spells .null ['n', 'u', 'l', 'l']
  | true : Spells (.bool true) ['t', 'r', 'u', 'e']
  | false : Spells (.bool false) ['f', 'a', 'l', 's', 'e']
  | number {numeral : Numeral} {text : List Char} :
      SpellsNumber numeral text → Spells (.number numeral) text
  | text {content : String} {text : List Char} :
      SpellsText content.toList text → Spells (.text content) ('"' :: text)
  | emptyArray {blank : List Char} : Blank blank → Spells (.array []) ('[' :: (blank ++ [']']))
  | array {items : List JsonTree} {text : List Char} :
      SpellsItems items text → Spells (.array items) ('[' :: text)
  | emptyObject {blank : List Char} :
      Blank blank → Spells (.object []) ('\x7b' :: (blank ++ ['\x7d']))
  | object {members : List (String × JsonTree)} {text : List Char} :
      SpellsMembers members text → Spells (.object members) ('\x7b' :: text)

/-- The items of an array, from behind its opening bracket to its closing one. -/
inductive SpellsItems : List JsonTree → List Char → Prop
  | last {item : JsonTree} {before text after : List Char} :
      Blank before → Spells item text → Blank after →
      SpellsItems [item] (before ++ (text ++ (after ++ [']'])))
  | more {item : JsonTree} {items : List JsonTree} {before text after rest : List Char} :
      Blank before → Spells item text → Blank after → SpellsItems items rest →
      SpellsItems (item :: items) (before ++ (text ++ (after ++ ',' :: rest)))

/-- The members of an object, from behind its opening brace to its closing one. -/
inductive SpellsMembers : List (String × JsonTree) → List Char → Prop
  | last {key : String} {value : JsonTree} {keyText text after : List Char} :
      SpellsKey key keyText → Spells value text → Blank after →
      SpellsMembers [(key, value)] (keyText ++ (text ++ (after ++ ['\x7d'])))
  | more {key : String} {value : JsonTree} {members : List (String × JsonTree)}
      {keyText text after rest : List Char} :
      SpellsKey key keyText → Spells value text → Blank after → SpellsMembers members rest →
      SpellsMembers ((key, value) :: members) (keyText ++ (text ++ (after ++ ',' :: rest)))

end

/-- A whole text that spells a tree, with blanks around it. -/
def SpellsWhole (tree : JsonTree) (text : List Char) : Prop :=
  ∃ before spelled after, Blank before ∧ Spells tree spelled ∧ Blank after ∧
    text = before ++ (spelled ++ after)

/-! ## Written literals -/

/-- A character is spelled by what is written for it. -/
theorem spellsText_escapeChar (c : Char) {content text : List Char} (h : SpellsText content text) :
    SpellsText (c :: content) (escapeChar c ++ text) := by
  unfold escapeChar
  split
  · subst c; exact .letter rfl h
  split
  · subst c; exact .letter rfl h
  split
  · subst c; exact .letter rfl h
  split
  · subst c; exact .letter rfl h
  split
  · subst c; exact .letter rfl h
  split
  · subst c; exact .letter rfl h
  split
  · subst c; exact .letter rfl h
  split
  · next hlow =>
    -- the other characters below the space are written by their number, which is no surrogate
    have hlow : c.toNat < 32 := hlow
    have hunit := SpellsText.unit (codeUnit?_control _ hlow)
      (by simp [isLeadSurrogate]; omega) (by simp [isTrailSurrogate]; omega) h
    rw [Char.ofNat_toNat] at hunit
    exact hunit
  · exact .plain (by assumption) (by assumption) (by assumption) h

/-- A string is spelled by what is written for it. -/
theorem spellsText_escaped (content : List Char) :
    SpellsText content (escaped content ++ ['"']) := by
  induction content with
  | nil => exact .close
  | cons c content ih =>
    show SpellsText _ (escapeChar c ++ escaped content ++ ['"'])
    rw [List.append_assoc]
    exact spellsText_escapeChar c ih

end StagedRollout
