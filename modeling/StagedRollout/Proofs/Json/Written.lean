/-
# StagedRollout.Proofs.Json.Written -- written values are strict texts that denote them

`Denotes tree json` says that a tree is a value spelled out: its numbers have the values of the
value's numbers, everything else is the same. Of every value that is fit to be written
(`Json.Writable`) the writer makes a strict text whose tree denotes the value (`spells_chars`),
in every layout whose blanks are blanks.
-/
import StagedRollout.Proofs.Json.WrittenNumber

namespace StagedRollout

/-! ## Trees and values -/

mutual

/-- A tree that spells a value out. -/
inductive Denotes : JsonTree → Json → Prop
  | null : Denotes .null .null
  | bool (value : Bool) : Denotes (.bool value) (.bool value)
  | int {n : Numeral} {i : Int} : n.toInt? = some i → Denotes (.number n) (.int i)
  | float {n : Numeral} {x : Binary64} : n.toInt? = none → n.reading.toBinary64 = x →
      x.isFinite = true → Denotes (.number n) (.float x)
  | text (content : String) : Denotes (.text content) (.text content)
  | array {trees : List JsonTree} {items : List Json} :
      DenotesItems trees items → Denotes (.array trees) (.array items)
  | object {trees : List (String × JsonTree)} {members : List (String × Json)} :
      DenotesMembers trees members → Denotes (.object trees) (.object members)

/-- Trees that spell the items of an array out. -/
inductive DenotesItems : List JsonTree → List Json → Prop
  | nil : DenotesItems [] []
  | cons {tree : JsonTree} {trees : List JsonTree} {item : Json} {items : List Json} :
      Denotes tree item → DenotesItems trees items → DenotesItems (tree :: trees) (item :: items)

/-- Trees that spell the members of an object out, key by key. -/
inductive DenotesMembers : List (String × JsonTree) → List (String × Json) → Prop
  | nil : DenotesMembers [] []
  | cons {key : String} {tree : JsonTree} {trees : List (String × JsonTree)} {value : Json}
      {members : List (String × Json)} :
      Denotes tree value → DenotesMembers trees members →
      DenotesMembers ((key, tree) :: trees) ((key, value) :: members)

end

mutual

/-- How many arrays and objects of a value are open at once at its deepest place. -/
def Json.depth : Json → Nat
  | .array items => jsonsDepth items + 1
  | .object members => jsonMembersDepth members + 1
  | _ => 0

/-- The depth of the deepest of several values. -/
def jsonsDepth : List Json → Nat
  | [] => 0
  | item :: rest => max item.depth (jsonsDepth rest)

/-- The depth of the deepest of several members. -/
def jsonMembersDepth : List (String × Json) → Nat
  | [] => 0
  | (_, value) :: rest => max value.depth (jsonMembersDepth rest)

end

mutual

/-- A value is as deep as its tree. -/
theorem depth_of_denotes : ∀ {tree : JsonTree} {json : Json}, Denotes tree json →
    tree.depth = json.depth
  | _, _, .null => rfl
  | _, _, .bool _ => rfl
  | _, _, .int _ => rfl
  | _, _, .float _ _ _ => rfl
  | _, _, .text _ => rfl
  | _, _, .array h => by rw [JsonTree.depth, Json.depth, depth_of_denotesItems h]
  | _, _, .object h => by rw [JsonTree.depth, Json.depth, depth_of_denotesMembers h]

theorem depth_of_denotesItems : ∀ {trees : List JsonTree} {items : List Json},
    DenotesItems trees items → itemsDepth trees = jsonsDepth items
  | _, _, .nil => rfl
  | _, _, .cons h hrest => by
      rw [itemsDepth, jsonsDepth, depth_of_denotes h, depth_of_denotesItems hrest]

theorem depth_of_denotesMembers : ∀ {trees : List (String × JsonTree)}
    {members : List (String × Json)}, DenotesMembers trees members →
    membersDepth trees = jsonMembersDepth members
  | _, _, .nil => rfl
  | _, _, .cons h hrest => by
      rw [membersDepth, jsonMembersDepth, depth_of_denotes h, depth_of_denotesMembers hrest]

end

/-- An integer literal counts as a finite double. -/
theorem inRange_of_toInt? {n : Numeral} {i : Int} (hplain : n.Plain) (h : n.toInt? = some i) :
    n.reading.toBinary64.isFinite = true := by
  obtain ⟨-, hlt, habs, -⟩ := Numeral.toInt?_eq_some h
  rw [Numeral.reading_of_toInt? hplain h, habs]
  exact Decimal.isFinite_integer _ hlt

mutual

/-- The numbers of a tree that denotes a value are in range. -/
theorem inRange_of_denotes : ∀ {tree : JsonTree} {json : Json}, Denotes tree json →
    tree.Every JsonTree.PlainNumber → tree.Every JsonTree.InRange
  | _, _, .null, _ => trivial
  | _, _, .bool _, _ => trivial
  | _, _, .int h, hplain => inRange_of_toInt? hplain.self h
  | _, _, .float _ hx hfinite, _ => by
      show Binary64.isFinite _ = true
      rw [hx, hfinite]
  | _, _, .text _, _ => trivial
  | _, _, .array h, hplain => ⟨trivial, inRange_of_denotesItems h hplain.2⟩
  | _, _, .object h, hplain => ⟨trivial, inRange_of_denotesMembers h hplain.2⟩

theorem inRange_of_denotesItems : ∀ {trees : List JsonTree} {items : List Json},
    DenotesItems trees items → EveryItem JsonTree.PlainNumber trees →
    EveryItem JsonTree.InRange trees
  | _, _, .nil, _ => trivial
  | _, _, .cons h hrest, hplain =>
      ⟨inRange_of_denotes h hplain.1, inRange_of_denotesItems hrest hplain.2⟩

theorem inRange_of_denotesMembers : ∀ {trees : List (String × JsonTree)}
    {members : List (String × Json)}, DenotesMembers trees members →
    EveryMember JsonTree.PlainNumber trees → EveryMember JsonTree.InRange trees
  | _, _, .nil, _ => trivial
  | _, _, .cons h hrest, hplain =>
      ⟨inRange_of_denotes h hplain.1, inRange_of_denotesMembers hrest hplain.2⟩

end

/-! ## Values that are fit to be written -/

mutual

/-- The integers of a value have machine size, and its floats are finite. -/
def Json.Writable : Json → Prop
  | .int i => Machine i
  | .float x => x.isFinite = true
  | .array items => WritableItems items
  | .object members => WritableMembers members
  | _ => True

/-- Items that are fit to be written. -/
def WritableItems : List Json → Prop
  | [] => True
  | item :: rest => item.Writable ∧ WritableItems rest

/-- Members that are fit to be written. -/
def WritableMembers : List (String × Json) → Prop
  | [] => True
  | (_, value) :: rest => value.Writable ∧ WritableMembers rest

end

/-- The blanks of a layout are blanks. -/
structure Layout.Blanks (layout : Layout) : Prop where
  lineBreak : ∀ depth, Blank (layout.lineBreak depth)
  afterColon : Blank layout.afterColon

theorem Layout.blanks_compact : Layout.compact.Blanks :=
  ⟨fun _ => blank_nil, blank_nil⟩

theorem Layout.blanks_indented : Layout.indented.Blanks := by
  refine ⟨fun depth c hc => ?_, by decide⟩
  rcases List.mem_cons.1 hc with rfl | hc
  · rfl
  · rw [(List.mem_replicate.1 hc).2]
    rfl

/-! ## Texts -/

theorem spellsKey_written {layout : Layout} (hlayout : layout.Blanks) (depth : Nat)
    (key : String) :
    SpellsKey key (layout.lineBreak depth ++ '"' :: ((escaped key.toList ++ ['"']) ++
      ([] ++ ':' :: layout.afterColon))) :=
  .parts (hlayout.lineBreak depth) (spellsText_escaped key.toList) blank_nil hlayout.afterColon

mutual

/-- **What is written for a value is a strict text that denotes it.** -/
theorem spells_chars {layout : Layout} (hlayout : layout.Blanks) : ∀ (json : Json),
    json.Writable → ∀ depth : Nat, ∃ tree, Spells tree (json.chars layout depth) ∧
      Denotes tree json
  | .null, _, depth => ⟨.null, .null, .null⟩
  | .bool value, _, depth => by
      cases value with
      | true => exact ⟨.bool true, .true, .bool true⟩
      | false => exact ⟨.bool false, .false, .bool false⟩
  | .int i, h, depth =>
      ⟨.number (integerNumeral i), .number (spellsNumber_intChars i),
        .int (toInt?_integerNumeral h)⟩
  | .float x, h, depth => by
      obtain ⟨n, hspelled, hint, hread⟩ := spellsNumber_floatChars h
      exact ⟨.number n, .number hspelled, .float hint hread h⟩
  | .text content, _, depth =>
      ⟨.text content, .text (spellsText_escaped content.toList), .text content⟩
  | .array [], _, depth => ⟨.array [], .emptyArray blank_nil, .array .nil⟩
  | .array (item :: rest), h, depth => by
      obtain ⟨tree, hspelled, hdenotes⟩ := spells_chars hlayout item h.1 (depth + 1)
      obtain ⟨trees, hspelled', hdenotes'⟩ :=
        spellsItems_chars hlayout rest h.2 depth hspelled
      -- the text of an item is spelled before that of the items behind it goes on
      exact ⟨.array (tree :: trees), .array hspelled', .array (.cons hdenotes hdenotes')⟩
  | .object [], _, depth => ⟨.object [], .emptyObject blank_nil, .object .nil⟩
  | .object ((key, value) :: rest), h, depth => by
      obtain ⟨tree, hspelled, hdenotes⟩ := spells_chars hlayout value h.1 (depth + 1)
      obtain ⟨trees, hspelled', hdenotes'⟩ :=
        spellsMembers_chars hlayout rest h.2 depth key hspelled
      exact ⟨.object ((key, tree) :: trees), .object hspelled', .object (.cons hdenotes hdenotes')⟩

/-- The items behind one that is spelled. -/
theorem spellsItems_chars {layout : Layout} (hlayout : layout.Blanks) : ∀ (items : List Json),
    WritableItems items → ∀ (depth : Nat) {head : JsonTree} {text : List Char}, Spells head text →
      ∃ trees, SpellsItems (head :: trees)
        (layout.lineBreak (depth + 1) ++ text ++ moreItemsChars layout depth items) ∧
          DenotesItems trees items
  | [], _, depth, head, text, hhead => by
      refine ⟨[], ?_, .nil⟩
      rw [moreItemsChars, List.append_assoc]
      exact .last (hlayout.lineBreak _) hhead (hlayout.lineBreak _)
  | item :: rest, h, depth, head, text, hhead => by
      obtain ⟨tree, hspelled, hdenotes⟩ := spells_chars hlayout item h.1 (depth + 1)
      obtain ⟨trees, hspelled', hdenotes'⟩ :=
        spellsItems_chars hlayout rest h.2 depth hspelled
      refine ⟨tree :: trees, ?_, .cons hdenotes hdenotes'⟩
      rw [moreItemsChars, List.append_assoc]
      exact .more (hlayout.lineBreak _) hhead blank_nil hspelled'

/-- The members behind one whose value is spelled. -/
theorem spellsMembers_chars {layout : Layout} (hlayout : layout.Blanks) :
    ∀ (members : List (String × Json)), WritableMembers members → ∀ (depth : Nat) (key : String)
      {head : JsonTree} {text : List Char}, Spells head text →
      ∃ trees, SpellsMembers ((key, head) :: trees)
        (layout.lineBreak (depth + 1) ++ quoteChars key ++ ':' :: layout.afterColon ++ text ++
          moreMembersChars layout depth members) ∧ DenotesMembers trees members
  | [], _, depth, key, head, text, hhead => by
      refine ⟨[], ?_, .nil⟩
      have hspelled := SpellsMembers.last (spellsKey_written hlayout (depth + 1) key) hhead
        (hlayout.lineBreak depth)
      simp only [moreMembersChars, quoteChars, List.append_assoc, List.cons_append,
        List.nil_append] at hspelled ⊢
      exact hspelled
  | (key', value) :: rest, h, depth, key, head, text, hhead => by
      obtain ⟨tree, hspelled, hdenotes⟩ := spells_chars hlayout value h.1 (depth + 1)
      obtain ⟨trees, hspelled', hdenotes'⟩ :=
        spellsMembers_chars hlayout rest h.2 depth key' hspelled
      refine ⟨(key', tree) :: trees, ?_, .cons hdenotes hdenotes'⟩
      have hall := SpellsMembers.more (spellsKey_written hlayout (depth + 1) key) hhead
        blank_nil hspelled'
      simp only [moreMembersChars, quoteChars, List.append_assoc, List.cons_append,
        List.nil_append] at hall ⊢
      exact hall

end

/-- The text of a value as a whole text. -/
theorem spellsWhole_chars {layout : Layout} (hlayout : layout.Blanks) {json : Json}
    (h : json.Writable) :
    ∃ tree, SpellsWhole tree (String.ofList (json.chars layout 0)).toList ∧ Denotes tree json := by
  obtain ⟨tree, hspelled, hdenotes⟩ := spells_chars hlayout json h 0
  refine ⟨tree, ⟨[], _, [], blank_nil, hspelled, blank_nil, ?_⟩, hdenotes⟩
  rw [String.toList_ofList, List.nil_append, List.append_nil]

theorem spellsWhole_compact {json : Json} (h : json.Writable) :
    ∃ tree, SpellsWhole tree json.compact.toList ∧ Denotes tree json :=
  spellsWhole_chars Layout.blanks_compact h

theorem spellsWhole_indented {json : Json} (h : json.Writable) :
    ∃ tree, SpellsWhole tree json.indented.toList ∧ Denotes tree json :=
  spellsWhole_chars Layout.blanks_indented h

end StagedRollout
