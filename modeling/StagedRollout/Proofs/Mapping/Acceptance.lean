/-
# StagedRollout.Proofs.Mapping.Acceptance -- the reader accepts the schema and nothing else

A text that spells a tree in strict JSON is read as a mapping exactly when the tree fits the
schema, and the mapping is the one that the schema says (`Mapping.parse_eq_ok_iff`). The reader
goes through a text once and from left to right; the schema is a relation on trees. They are
joined record by record: `FitsX.of_read` reads a fit off a success, `FitsX.read` leads from a
fit to a success, provided there is room for the brackets of the tree.
-/
import StagedRollout.Proofs.Json.Nesting
import StagedRollout.Proofs.Mapping.Records
import StagedRollout.Proofs.Mapping.Schema
import StagedRollout.Mapping.Error

namespace StagedRollout

open JsonTree (InRange DistinctKeys PlainNumber Regular)

/-- Where a bracket fits, the rest has the room that it leaves. -/
theorem exists_left {depth room : Nat} (h : depth + 1 ≤ room) :
    ∃ left, room = left + 1 ∧ depth ≤ left :=
  ⟨room - 1, by omega, by omega⟩

/-! ## Outlines that tell their tree -/

theorem outline_eq_text {tree : JsonTree} {content : String} :
    tree.outline = .text (.ok content) ↔ tree = .text content := by
  cases tree <;> simp [JsonTree.outline]

theorem outline_eq_null {tree : JsonTree} : tree.outline = .null ↔ tree = .null := by
  cases tree <;> simp [JsonTree.outline]

theorem itemsOutline_eq_closed {items : List JsonTree} :
    itemsOutline items = .closed ↔ items = [] := by
  cases items <;> simp [itemsOutline]

theorem membersOutline_eq_closed {members : List (String × JsonTree)} :
    membersOutline members = .closed ↔ members = [] := by
  cases members <;> simp [membersOutline]

theorem itemsOutline_eq_item {items : List JsonTree} {head : Outline} {tail : Items} :
    itemsOutline items = .item head tail ↔
      ∃ item rest, items = item :: rest ∧ item.outline = head ∧ itemsOutline rest = tail := by
  cases items <;> simp [itemsOutline]

theorem outline_eq_number {tree : JsonTree} {n : Numeral} :
    tree.outline = .number n ↔ tree = .number n := by
  cases tree <;> simp [JsonTree.outline]

theorem outline_eq_array {tree : JsonTree} {items : Items} :
    tree.outline = .array items ↔ ∃ trees, tree = .array trees ∧ itemsOutline trees = items := by
  cases tree <;> simp [JsonTree.outline]

theorem outline_eq_object {tree : JsonTree} {members : Members} :
    tree.outline = .object members ↔
      ∃ trees, tree = .object trees ∧ membersOutline trees = members := by
  cases tree <;> simp [JsonTree.outline]

theorem outline_eq_pair {tree : JsonTree} {first second : Outline} :
    tree.outline = .array (.item first (.item second .closed)) ↔
      ∃ first' second', tree = .array [first', second'] ∧ first'.outline = first ∧
        second'.outline = second := by
  rw [outline_eq_array]
  constructor
  · rintro ⟨trees, rfl, htrees⟩
    obtain ⟨first', rest, rfl, rfl, hrest⟩ := itemsOutline_eq_item.1 htrees
    obtain ⟨second', rest, rfl, rfl, hend⟩ := itemsOutline_eq_item.1 hrest
    obtain rfl := itemsOutline_eq_closed.1 hend
    exact ⟨first', second', rfl, rfl, rfl⟩
  · rintro ⟨first', second', rfl, rfl, rfl⟩
    exact ⟨_, rfl, rfl⟩

/-- A string is read off its spelling and nothing else. -/
theorem readText_outline {tree : JsonTree} {content : String} :
    readText tree.outline = .ok content ↔ tree = .text content := by
  rw [readText_eq_ok, outline_eq_text]

/-! ## Versions -/

theorem toWord?_eq_some {i : Int} {word : UInt32} : toWord? i = some word ↔ i = word.toNat := by
  unfold toWord?
  rw [Option.ite_none_right_eq_some, Option.some.injEq]
  constructor
  · rintro ⟨⟨hnonneg, hlt⟩, rfl⟩
    rw [UInt32.toNat_ofNat_of_lt' (by omega)]
    omega
  · rintro rfl
    have hlt := word.toNat_lt
    refine ⟨⟨Int.natCast_nonneg _, by exact_mod_cast hlt⟩, ?_⟩
    rw [Int.toNat_natCast, UInt32.ofNat_toNat]

/-- A literal is found to be an integer just when it denotes one. -/
theorem found_number_eq_int {n : Numeral} {i : Int} :
    (Outline.number n).found = .ok (.int i) ↔ n.toInt? = some i := by
  rw [Outline.found]
  cases hint : n.toInt? with
  | some j =>
    rw [Numeral.value?_of_toInt? hint]
    simp
  | none =>
    unfold Numeral.value?
    rw [hint]
    cases n.reading.toBinary64 <;> simp [ReadResult.fault]

/-- What it takes to read a version. -/
theorem readWord_eq_ok {o : Outline} {word : UInt32} :
    readWord o = .ok word ↔ ∃ i, o.found = .ok (.int i) ∧ toWord? i = some word := by
  rw [readWord, Outcome.bind_eq_ok]
  constructor
  · rintro ⟨found, hfound, h⟩
    cases found with
    | int i =>
      refine ⟨i, hfound, ?_⟩
      simp only at h
      split at h
      · next hword => rw [hword, Except.ok.inj h]
      · exact absurd h ReadResult.mismatch_ne_ok
    | _ => exact absurd h ReadResult.mismatch_ne_ok
  · rintro ⟨i, hfound, hword⟩
    refine ⟨_, hfound, ?_⟩
    simp only [hword, Outcome.pure_eq_ok]

/-- A version is read off the literals of the schema and nothing else. -/
theorem readWord_outline {tree : JsonTree} {word : UInt32} :
    readWord tree.outline = .ok word ↔ FitsVersion tree word := by
  have hword : word.toNat < Numeral.unsignedSpan :=
    Nat.lt_trans word.toNat_lt (by decide)
  simp only [readWord_eq_ok, toWord?_eq_some, exists_eq_right]
  constructor
  · intro h
    cases tree with
    | number n =>
      rw [JsonTree.outline, found_number_eq_int, Numeral.toInt?_eq_natCast hword] at h
      exact .literal h.1 h.2.1 h.2.2
    | _ => simp [JsonTree.outline, Outline.found, ReadResult.ofText] at h
  · rintro ⟨hwhole, hneg, hcoefficient⟩
    rw [JsonTree.outline, found_number_eq_int, Numeral.toInt?_eq_natCast hword]
    exact ⟨hwhole, hneg, hcoefficient⟩

/-! ## Operands -/

namespace Operand

theorem read_eq_ok {room : Nat} {o : Outline} {operand : Operand} :
    read room o = .ok operand ↔ ∃ json, o.read room = .ok json ∧ ofJson? json = some operand := by
  simp only [read, Outcome.bind_eq_ok, ReadResult.ofText_eq_ok]
  refine exists_congr fun json => and_congr_right fun _ => ?_
  cases ofJson? json <;> simp [ReadResult.mismatch_ne_ok]

theorem ofJson?_of_number {json : Json} {x : Binary64} (h : ofNumber? json = some x) :
    ofJson? json = some (.number x) := by
  cases json with
  | int i => exact congrArg (Option.map Operand.number) h
  | float y => exact congrArg (Option.map Operand.number) h
  | _ => exact absurd h (by simp [ofNumber?])

theorem ofTexts?_eq_some {jsons : List Json} {contents : List String} :
    ofTexts? jsons = some contents ↔ jsons = contents.map .text := by
  induction jsons generalizing contents with
  | nil => cases contents <;> simp [ofTexts?]
  | cons json rest ih =>
    cases json with
    | text content =>
      cases contents with
      | nil => simp [ofTexts?]
      | cons head tail =>
        simp only [ofTexts?, Option.map_eq_map, Option.map_eq_some_iff, ih, List.cons.injEq,
          List.map_cons, Json.text.injEq]
        constructor
        · rintro ⟨_, rfl, rfl, rfl⟩
          exact ⟨rfl, rfl⟩
        · rintro ⟨rfl, rfl⟩
          exact ⟨_, rfl, rfl, rfl⟩
    | _ => cases contents <;> simp [ofTexts?]

/-- An operand was read off a number, a string, or an array of strings. -/
theorem exists_of_read {room : Nat} {o : Outline} {operand : Operand}
    (h : read room o = .ok operand) :
    (∃ n json x, o = .number n ∧ n.value? = some json ∧ ofNumber? json = some x ∧
        operand = .number x) ∨
      (∃ content, o = .text (.ok content) ∧ operand = .text content) ∨
      ∃ left items contents, room = left + 1 ∧ o = .array items ∧
        items.read left = .ok (contents.map .text) ∧ operand = .texts contents := by
  obtain ⟨json, hread, hoperand⟩ := read_eq_ok.1 h
  cases o with
  | number n =>
    left
    rw [Outline.read] at hread
    cases hvalue : n.value? with
    | none => rw [hvalue] at hread; exact absurd hread (by simp)
    | some json' =>
      rw [hvalue] at hread
      obtain rfl := Except.ok.inj hread
      -- a literal is held as an integer or as a float, and both are operands
      obtain ⟨x, hx⟩ : ∃ x, ofNumber? json' = some x := by
        obtain ⟨i, -, rfl⟩ | ⟨y, rfl, -⟩ := Numeral.value?_eq_some hvalue
        · exact ⟨_, rfl⟩
        · exact ⟨_, rfl⟩
      rw [ofJson?_of_number hx] at hoperand
      exact ⟨n, json', x, rfl, hvalue, hx, (Option.some.inj hoperand).symm⟩
  | text content =>
    right; left
    obtain ⟨string, rfl, rfl⟩ := Outcome.map_eq_ok.1 hread
    exact ⟨string, rfl, (Option.some.inj hoperand).symm⟩
  | array items =>
    right; right
    cases room with
    | zero => exact absurd hread (by simp [Outline.read])
    | succ left =>
      obtain ⟨jsons, hitems, rfl⟩ := Outcome.map_eq_ok.1 hread
      obtain ⟨contents, hcontents, rfl⟩ := Option.map_eq_some_iff.1 hoperand
      -- only now, with all items read, do they have to be strings
      rw [ofTexts?_eq_some.1 hcontents] at hitems
      exact ⟨left, items, contents, rfl, rfl, hitems, rfl⟩
  | object members =>
    cases room with
    | zero => exact absurd hread (by simp [Outline.read])
    | succ left =>
      obtain ⟨_, -, rfl⟩ := Outcome.map_eq_ok.1 hread
      exact absurd hoperand (by simp [ofJson?, ofNumber?])
  | null =>
    obtain rfl := Except.ok.inj hread
    exact absurd hoperand (by simp [ofJson?, ofNumber?])
  | bool value =>
    obtain rfl := Except.ok.inj hread
    exact absurd hoperand (by simp [ofJson?, ofNumber?])
  | _ => exact absurd hread (by simp [Outline.read])

end Operand

theorem read_outline_eq_text {room : Nat} {tree : JsonTree} {content : String} :
    tree.outline.read room = .ok (.text content) ↔ tree = .text content := by
  cases tree with
  | number n =>
    have hne : n.value? ≠ some (.text content) := by
      intro h
      obtain ⟨_, -, heq⟩ | ⟨_, heq, -⟩ := Numeral.value?_eq_some h <;> cases heq
    rw [JsonTree.outline, Outline.read]
    cases hvalue : n.value? with
    | none => simp
    | some json => rw [hvalue] at hne; simpa using hne
  | array items => cases room <;> simp [JsonTree.outline, Outline.read, Outcome.map_eq_ok]
  | object members => cases room <;> simp [JsonTree.outline, Outline.read, Outcome.map_eq_ok]
  | _ => simp [JsonTree.outline, Outline.read]

/-- Only strings are read as strings. -/
theorem read_itemsOutline_eq_texts {room : Nat} {items : List JsonTree} {contents : List String} :
    (itemsOutline items).read room = .ok (contents.map .text) ↔
      items = contents.map .text := by
  induction items generalizing contents with
  | nil => cases contents <;> simp [itemsOutline, Items.read]
  | cons item rest ih =>
    rw [itemsOutline, Items.read]
    simp only [Outcome.bind_eq_ok, Outcome.pure_eq_ok, Except.ok.injEq]
    cases contents with
    | nil => simp
    | cons head tail =>
      simp only [List.map_cons, List.cons.injEq]
      constructor
      · rintro ⟨_, hhead, _, htail, rfl, rfl⟩
        exact ⟨read_outline_eq_text.1 hhead, ih.1 htail⟩
      · rintro ⟨hhead, htail⟩
        exact ⟨_, read_outline_eq_text.2 hhead, _, ih.2 htail, rfl, rfl⟩

/-- What is read as an operand fits as one. -/
theorem FitsOperand.of_read {room : Nat} {tree : JsonTree} {operand : Operand}
    (hplain : tree.Every PlainNumber) (h : Operand.read room tree.outline = .ok operand) :
    FitsOperand tree operand := by
  obtain ⟨n, json, x, ho, hvalue, hx, rfl⟩ | ⟨content, ho, rfl⟩ |
    ⟨left, items, contents, rfl, ho, hitems, rfl⟩ := Operand.exists_of_read h
  · obtain rfl := outline_eq_number.1 ho
    -- the reader went by the value of the literal, the schema goes by its reading
    rw [Numeral.ofNumber?_of_value? hplain.self hvalue] at hx
    obtain rfl := Option.some.inj hx
    exact .number n
  · obtain rfl := outline_eq_text.1 ho
    exact .text content
  · obtain ⟨trees, rfl, rfl⟩ := outline_eq_array.1 ho
    obtain rfl := read_itemsOutline_eq_texts.1 hitems
    exact .texts contents

/-- What fits as an operand is read as it, if its number is in range. -/
theorem FitsOperand.read {room : Nat} {tree : JsonTree} {operand : Operand}
    (h : FitsOperand tree operand) (hregular : tree.Every Regular)
    (hdepth : tree.depth ≤ room) : Operand.read room tree.outline = .ok operand := by
  rw [Operand.read_eq_ok]
  cases h with
  | number n =>
    obtain ⟨hplain, hrange, -⟩ := hregular.self
    obtain ⟨json, hvalue⟩ := Numeral.exists_value? hrange
    refine ⟨json, ?_, Operand.ofJson?_of_number (Numeral.ofNumber?_of_value? hplain hvalue)⟩
    rw [JsonTree.outline, Outline.read, hvalue]
  | text content => exact ⟨.text content, rfl, rfl⟩
  | texts contents =>
    rw [JsonTree.depth] at hdepth
    obtain ⟨room, rfl, -⟩ := exists_left hdepth
    refine ⟨.array (contents.map .text), ?_, ?_⟩
    · rw [JsonTree.outline, Outline.read, read_itemsOutline_eq_texts.2 rfl, Outcome.map_ok]
    · rw [Operand.ofJson?, Operand.ofTexts?_eq_some.2 rfl]
      rfl

/-! ## Operators -/

theorem Operator.ofToken_eq_ok {word : String} {o : Operator} :
    ofToken word = .ok o ↔ word = o.token := by
  unfold ofToken
  constructor
  · intro h
    split at h
    · next o' hfind =>
      have htoken := List.find?_some hfind
      rw [decide_eq_true_eq] at htoken
      rw [← Except.ok.inj h, htoken]
    · exact absurd h ReadResult.mismatch_ne_ok
  · rintro rfl
    rw [ofToken?_token]

/-- What is read as an operator fits as one. -/
theorem FitsOperator.of_read {room : Nat} {tree : JsonTree} {o : Operator}
    (h : Operator.read room tree.outline = .ok o) : FitsOperator tree o := by
  cases tree with
  | text content =>
    obtain rfl := Operator.ofToken_eq_ok.1 h
    exact .token o
  | object members =>
    obtain ⟨left, rfl, h⟩ := opening_eq_ok.1 h
    cases members with
    | nil => exact absurd h ReadResult.fault_ne_ok
    | cons member rest =>
      obtain ⟨key, value⟩ := member
      -- the walk inverted: a token, a null behind it, and nothing else
      obtain ⟨word, hkey, h⟩ := Outcome.bind_eq_ok.1 h
      obtain rfl : key = word := Except.ok.inj hkey
      obtain ⟨o', htoken, h⟩ := Outcome.bind_eq_ok.1 h
      obtain ⟨⟨⟩, hnull, h⟩ := Outcome.bind_eq_ok.1 h
      obtain ⟨⟨⟩, hfinish, h⟩ := Outcome.bind_eq_ok.1 h
      obtain rfl := Except.ok.inj h
      obtain rfl := Operator.ofToken_eq_ok.1 htoken
      obtain rfl := outline_eq_null.1 (readUnit_eq_ok.1 hnull)
      obtain rfl := membersOutline_eq_closed.1 (Members.finish_eq_ok.1 hfinish)
      exact .key o'
  | _ => exact absurd h ReadResult.fault_ne_ok

/-- What fits as an operator is read as it. -/
theorem FitsOperator.read {room : Nat} {tree : JsonTree} {o : Operator} (h : FitsOperator tree o)
    (hdepth : tree.depth ≤ room) : Operator.read room tree.outline = .ok o := by
  cases h with
  | token =>
    rw [JsonTree.outline, Operator.read, ReadResult.ofText, Outcome.ok_bind]
    exact Operator.ofToken_eq_ok.2 rfl
  | key =>
    rw [JsonTree.depth] at hdepth
    obtain ⟨room, rfl, -⟩ := exists_left hdepth
    simp only [JsonTree.outline, membersOutline, Operator.read, opening, ReadResult.ofText,
      Outcome.ok_bind, Operator.ofToken_eq_ok.2 rfl, readUnit, Members.finish,
      Outcome.pure_eq_ok]

/-! ## Nodes -/

/-- What is read as a predicate fits as one. -/
theorem FitsPredicate.of_read {room : Nat} {members : List (String × JsonTree)} {p : Predicate}
    (hplain : EveryMember PlainNumber members)
    (h : Predicate.read room (membersOutline members) = .ok p) : FitsPredicate members p := by
  obtain ⟨⟨_, hoperand, hread⟩, ⟨_, hclientKey, hread'⟩, ⟨_, hoperator, hread''⟩⟩ :=
    Predicate.exists_of_read h
  obtain ⟨tree, hmem, rfl⟩ := has_membersOutline.1 hoperand
  obtain ⟨tree', hmem', rfl⟩ := has_membersOutline.1 hclientKey
  obtain ⟨tree'', hmem'', rfl⟩ := has_membersOutline.1 hoperator
  obtain rfl := readText_outline.1 hread'
  exact ⟨⟨tree, hmem, .of_read (every_of_mem hplain hmem) hread⟩, hmem',
    ⟨tree'', hmem'', .of_read hread''⟩⟩

/-- What fits as a predicate is read as it. -/
theorem FitsPredicate.read {room : Nat} {members : List (String × JsonTree)} {p : Predicate}
    (h : FitsPredicate members p) (hregular : EveryMember Regular members)
    (hkeys : (members.map Prod.fst).Nodup) (hdepth : membersDepth members ≤ room) :
    Predicate.read room (membersOutline members) = .ok p := by
  obtain ⟨⟨tree, hmem, hoperand⟩, hclientKey, ⟨tree', hmem', hoperator⟩⟩ := h
  refine Predicate.read_of_members hkeys ⟨tree, hmem, ?_⟩ ⟨_, hclientKey, rfl⟩ ⟨tree', hmem', ?_⟩
  · exact hoperand.read (every_of_mem hregular hmem)
      (Nat.le_trans (depth_le_of_mem hmem) hdepth)
  · exact hoperator.read (Nat.le_trans (depth_le_of_mem hmem') hdepth)

/-- A statement fits by its keyword and its nodes. -/
theorem FitsNode.statement {items : List JsonTree} {keyword : String} {nodes : List Node}
    {node : Node} (hnodes : FitsNodes items nodes)
    (h : node.statement? = some (keyword, nodes)) :
    FitsNode (.array (.text keyword :: items)) node := by
  cases node with
  | all nodes => obtain ⟨rfl, rfl⟩ := Prod.mk.inj (Option.some.inj h); exact .all hnodes
  | any nodes => obtain ⟨rfl, rfl⟩ := Prod.mk.inj (Option.some.inj h); exact .any hnodes
  | not node =>
    obtain ⟨rfl, rfl⟩ := Prod.mk.inj (Option.some.inj h)
    cases hnodes with
    | cons hnode hrest =>
      -- a negation has one node, so no more items follow
      cases hrest
      exact .not hnode
  | _ => exact absurd h (by simp [Node.statement?])

theorem Node.read_statement {room : Nat} {keyword : String} {items : List JsonTree}
    {nodes : List Node} {node : Node} (hnodes : readNodes room (itemsOutline items) = .ok nodes)
    (h : node.statement? = some (keyword, nodes)) :
    Node.read (room + 1) (JsonTree.array (.text keyword :: items)).outline = .ok node := by
  rw [JsonTree.outline, itemsOutline, JsonTree.outline, Node.read]
  simp only [readText, ReadResult.ofText, Outcome.ok_bind, hnodes, ofStatement_eq_ok.2 h]

mutual

/-- What is read as a node fits as one. -/
theorem FitsNode.of_read : ∀ (tree : JsonTree) {room : Nat} {node : Node},
    tree.Every PlainNumber → Node.read room tree.outline = .ok node → FitsNode tree node
  | .text content, room, node, _, h => by
      obtain ⟨htext, rfl⟩ := Node.read_text h
      obtain rfl := Except.ok.inj htext
      exact .alwaysTrue
  | .object members, room, node, hplain, h => by
      obtain ⟨left, p, rfl, hread, rfl⟩ := Node.read_object h
      exact .predicate (.of_read hplain.2 hread)
  | .array [], room, node, _, h => by
      obtain ⟨_, _, _, _, _, -, hitems, -⟩ := Node.read_array h
      exact absurd hitems (by simp [itemsOutline])
  | .array (item :: items), room, node, hplain, h => by
      obtain ⟨left, _, _, keyword, nodes, rfl, hitems, hkeyword, hnodes, hnode⟩ :=
        Node.read_array h
      -- the statement was put together after all items were read as nodes
      obtain ⟨rfl, rfl⟩ := Items.item.inj hitems
      obtain rfl := readText_outline.1 hkeyword
      exact .statement (FitsNodes.of_read items hplain.2.2 hnodes) hnode
  | .null, room, node, _, h => absurd h Outline.refuse_ne_ok
  | .bool _, room, node, _, h => absurd h Outline.refuse_ne_ok
  | .number _, room, node, _, h => absurd h Outline.refuse_ne_ok

theorem FitsNodes.of_read : ∀ (items : List JsonTree) {room : Nat} {nodes : List Node},
    EveryItem PlainNumber items → readNodes room (itemsOutline items) = .ok nodes →
    FitsNodes items nodes
  | [], room, nodes, _, h => by
      rw [itemsOutline, readNodes] at h
      obtain rfl := Except.ok.inj h
      exact .nil
  | item :: items, room, nodes, hplain, h => by
      rw [itemsOutline, readNodes] at h
      obtain ⟨node, hnode, h⟩ := Outcome.bind_eq_ok.1 h
      obtain ⟨rest, hrest, h⟩ := Outcome.bind_eq_ok.1 h
      obtain rfl := Except.ok.inj h
      exact .cons (FitsNode.of_read item hplain.1 hnode) (FitsNodes.of_read items hplain.2 hrest)

end

mutual

/-- What fits as a node is read as it, if there is room for its brackets. -/
theorem FitsNode.read : ∀ {tree : JsonTree} {node : Node}, FitsNode tree node → ∀ {room : Nat},
    tree.Every Regular → tree.depth ≤ room → Node.read room tree.outline = .ok node
  | _, _, .alwaysTrue, room, _, _ => by
      rw [JsonTree.outline, Node.read]
      rfl
  | _, _, .predicate h, room, hregular, hdepth => by
      obtain ⟨left, rfl, hinside⟩ := exists_left hdepth
      rw [JsonTree.outline, Node.read, opening, h.read hregular.2 hregular.self.2.2 hinside,
        Outcome.map_ok]
  | _, _, .all h, room, hregular, hdepth => by
      obtain ⟨left, rfl, hinside⟩ := exists_left hdepth
      rw [itemsDepth] at hinside
      exact Node.read_statement (FitsNodes.read h hregular.2.2 (by omega)) rfl
  | _, _, .any h, room, hregular, hdepth => by
      obtain ⟨left, rfl, hinside⟩ := exists_left hdepth
      rw [itemsDepth] at hinside
      exact Node.read_statement (FitsNodes.read h hregular.2.2 (by omega)) rfl
  | _, _, .not h, room, hregular, hdepth => by
      obtain ⟨left, rfl, hinside⟩ := exists_left hdepth
      rw [itemsDepth, itemsDepth] at hinside
      refine Node.read_statement ?_ rfl
      rw [itemsOutline, itemsOutline, readNodes, readNodes,
        FitsNode.read h hregular.2.2.1 (by omega)]
      rfl

theorem FitsNodes.read : ∀ {items : List JsonTree} {nodes : List Node}, FitsNodes items nodes →
    ∀ {room : Nat}, EveryItem Regular items → itemsDepth items ≤ room →
    readNodes room (itemsOutline items) = .ok nodes
  | _, _, .nil, room, _, _ => by rw [itemsOutline, readNodes]
  | _, _, .cons h hrest, room, hregular, hdepth => by
      rw [itemsDepth] at hdepth
      rw [itemsOutline, readNodes, FitsNode.read h hregular.1 (by omega),
        FitsNodes.read hrest hregular.2 (by omega)]
      rfl

end

/-! ## Entries -/

/-- What is read as an entry fits as one. -/
theorem FitsEntry.of_read {room : Nat} {tree : JsonTree} {entry : Entry}
    (hplain : tree.Every PlainNumber) (h : Entry.read room tree.outline = .ok entry) :
    FitsEntry tree entry := by
  obtain ⟨left, rfl, ⟨_, ho, ⟨_, hbranchId, hread⟩, ⟨_, hlogic, hread'⟩⟩ |
    ⟨_, _, ho, hread, hread'⟩⟩ := Entry.exists_of_read h
  · obtain ⟨members, rfl, rfl⟩ := outline_eq_object.1 ho
    obtain ⟨tree, hmem, rfl⟩ := has_membersOutline.1 hbranchId
    obtain ⟨tree', hmem', rfl⟩ := has_membersOutline.1 hlogic
    obtain rfl := readText_outline.1 hread
    exact .object hmem hmem' (.of_read tree' (every_of_mem hplain.2 hmem') hread')
  · obtain ⟨first, second, rfl, rfl, rfl⟩ := outline_eq_pair.1 ho
    obtain rfl := readText_outline.1 hread
    exact .array (.of_read second hplain.2.2.1 hread')

/-- What fits as an entry is read as it. -/
theorem FitsEntry.read {room : Nat} {tree : JsonTree} {entry : Entry} (h : FitsEntry tree entry)
    (hregular : tree.Every Regular) (hdepth : tree.depth ≤ room) :
    Entry.read room tree.outline = .ok entry := by
  cases h with
  | object hbranchId hlogic hnode =>
    obtain ⟨left, rfl, hinside⟩ := exists_left hdepth
    refine Entry.read_of_members hregular.self.2.2 ⟨_, hbranchId, rfl⟩ ⟨_, hlogic, ?_⟩
    exact hnode.read (every_of_mem hregular.2 hlogic)
      (Nat.le_trans (depth_le_of_mem hlogic) hinside)
  | array hnode =>
    obtain ⟨left, rfl, hinside⟩ := exists_left hdepth
    rw [itemsDepth, itemsDepth] at hinside
    refine Entry.read_of_items rfl ?_
    exact hnode.read hregular.2.2.1 (by omega)

/-- What is read as the entries of a mapping fits as them. -/
theorem FitsEntries.of_read {room : Nat} {tree : JsonTree} {entries : List Entry}
    (hplain : tree.Every PlainNumber) (h : readList Entry.read room tree.outline = .ok entries) :
    FitsEntries tree entries := by
  obtain ⟨_, left, ho, rfl, hread⟩ := readList_eq_ok.1 h
  obtain ⟨trees, rfl, rfl⟩ := outline_eq_array.1 ho
  refine .array ?_
  have hitems := readAll_itemsOutline.1 hread
  obtain ⟨-, hplain⟩ := hplain
  clear h ho hread
  -- on the items, each of which takes its own share of the hypothesis
  induction hitems with
  | nil => exact .nil
  | cons hitem _ ih => exact .cons (.of_read hplain.1 hitem) (ih hplain.2)

/-- What fits as the entries of a mapping is read as them. -/
theorem FitsEntries.read {room : Nat} {tree : JsonTree} {entries : List Entry}
    (h : FitsEntries tree entries) (hregular : tree.Every Regular) (hdepth : tree.depth ≤ room) :
    readList Entry.read room tree.outline = .ok entries := by
  obtain ⟨hitems⟩ := h
  obtain ⟨left, rfl, hinside⟩ := exists_left hdepth
  refine readList_eq_ok.2 ⟨_, left, rfl, rfl, readAll_itemsOutline.2 ?_⟩
  obtain ⟨-, hregular⟩ := hregular
  clear hdepth
  induction hitems with
  | nil => exact .nil
  | cons hitem _ ih =>
    rw [itemsDepth] at hinside
    exact .cons (hitem.read hregular.1 (by omega)) (ih (by omega) hregular.2)

/-! ## Mappings -/

/-- What is read as a mapping fits as one. -/
theorem FitsMapping.of_read {room : Nat} {tree : JsonTree} {m : Mapping}
    (hplain : tree.Every PlainNumber) (h : Mapping.read room tree.outline = .ok m) :
    FitsMapping tree m := by
  obtain ⟨left, rfl, ⟨_, ho, ⟨_, hversion, hread⟩, ⟨_, hentries, hread'⟩⟩ |
    ⟨_, _, ho, hread, hread'⟩⟩ := Mapping.exists_of_read h
  · obtain ⟨members, rfl, rfl⟩ := outline_eq_object.1 ho
    obtain ⟨tree, hmem, rfl⟩ := has_membersOutline.1 hversion
    obtain ⟨tree', hmem', rfl⟩ := has_membersOutline.1 hentries
    exact .object hmem (readWord_outline.1 hread) hmem'
      (.of_read (every_of_mem hplain.2 hmem') hread')
  · obtain ⟨first, second, rfl, rfl, rfl⟩ := outline_eq_pair.1 ho
    exact .array (readWord_outline.1 hread) (.of_read hplain.2.2.1 hread')

/-- What fits as a mapping is read as it. -/
theorem FitsMapping.read {room : Nat} {tree : JsonTree} {m : Mapping} (h : FitsMapping tree m)
    (hregular : tree.Every Regular) (hdepth : tree.depth ≤ room) :
    Mapping.read room tree.outline = .ok m := by
  cases h with
  | object hversion hfits hentries hfits' =>
    obtain ⟨left, rfl, hinside⟩ := exists_left hdepth
    refine Mapping.read_of_members hregular.self.2.2 ⟨_, hversion, readWord_outline.2 hfits⟩
      ⟨_, hentries, ?_⟩
    exact hfits'.read (every_of_mem hregular.2 hentries)
      (Nat.le_trans (depth_le_of_mem hentries) hinside)
  | array hfits hfits' =>
    obtain ⟨left, rfl, hinside⟩ := exists_left hdepth
    rw [itemsDepth, itemsDepth] at hinside
    refine Mapping.read_of_items (readWord_outline.2 hfits) ?_
    exact hfits'.read hregular.2.2.1 (by omega)

/-! ## Whole texts -/

namespace Mapping

theorem parse_eq_ok {raw : String} {m : Mapping} :
    parse raw = .ok m ↔ readWhole Mapping.read raw = .ok m := by
  unfold parse
  cases readWhole Mapping.read raw <;> simp

/-- **A strict text is accepted just when its tree fits the schema**, and what is read is the
mapping that the schema says. The text may have 127 brackets open at once, its numbers have to be
in range, and no key may be repeated in one object. -/
theorem parse_eq_ok_iff {tree : JsonTree} {raw : String} (hspelled : SpellsWhole tree raw.toList)
    (hopen : openAtOnce raw.toList ≤ nestingLimit) (hrange : tree.Every InRange)
    (hkeys : tree.Every DistinctKeys) (m : Mapping) : parse raw = .ok m ↔ FitsMapping tree m := by
  have hplain := plainNumber_of_spellsWhole hspelled
  rw [openAtOnce_of_spells hspelled] at hopen
  rw [parse_eq_ok, readWhole_spelled hspelled]
  constructor
  · intro h
    exact .of_read hplain h
  · intro h
    exact h.read (every_and hplain (every_and hrange hkeys)) hopen

/-- A mapping and an entry in their array forms, with a blank between two items. -/
theorem parse_eq_ok_iff_handwritten :
    ∃ tree, SpellsWhole tree "[3, [[\"B1\",\"true\"]]]".toList ∧
      openAtOnce "[3, [[\"B1\",\"true\"]]]".toList ≤ nestingLimit ∧
      tree.Every InRange ∧ tree.Every DistinctKeys ∧
      ∀ m, parse "[3, [[\"B1\",\"true\"]]]" = .ok m ↔ FitsMapping tree m := by
  have hblank : Blank [] := by decide
  have hspace : Blank [' '] := by decide
  have hnumber : SpellsNumber ⟨⟨false, 3, 0⟩, true, false⟩ ['3'] :=
    @SpellsNumber.parts false ['3'] [] [] [] none (by decide) (.inr (by decide)) .none .none
  have htext (content : String) := Spells.text (spellsText_escaped content.toList)
  have hentry := Spells.array (.more hblank (htext "B1") hblank
    (.last hblank (htext "true") hblank))
  have hspells := Spells.array (.more hblank (.number hnumber) hblank
    (.last hspace (.array (.last hblank hentry hblank)) hblank))
  have hspelled : SpellsWhole _ "[3, [[\"B1\",\"true\"]]]".toList :=
    ⟨[], _, [], hblank, hspells, hblank, by decide⟩
  have hopen : openAtOnce "[3, [[\"B1\",\"true\"]]]".toList ≤ nestingLimit := by decide
  have hnumber' : Binary64.isFinite (Decimal.toBinary64 ⟨false, 3, 0⟩) = true := by
    decide +kernel
  have hrange : JsonTree.Every InRange (.array [.number ⟨⟨false, 3, 0⟩, true, false⟩,
      .array [.array [.text "B1", .text "true"]]]) :=
    ⟨trivial, hnumber', ⟨trivial, ⟨trivial, trivial, trivial, trivial⟩, trivial⟩, trivial⟩
  have hkeys : JsonTree.Every DistinctKeys (.array [.number ⟨⟨false, 3, 0⟩, true, false⟩,
      .array [.array [.text "B1", .text "true"]]]) :=
    ⟨trivial, trivial, ⟨trivial, ⟨trivial, trivial, trivial, trivial⟩, trivial⟩, trivial⟩
  exact ⟨_, hspelled, hopen, hrange, hkeys, parse_eq_ok_iff hspelled hopen hrange hkeys⟩

end Mapping

end StagedRollout
