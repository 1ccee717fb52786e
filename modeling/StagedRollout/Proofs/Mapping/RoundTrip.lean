/-
# StagedRollout.Proofs.Mapping.RoundTrip -- what is written is read back

Writing a mapping and reading the text gives an equal mapping, as long as the text does not nest
deeper than a reader goes (`Mapping.toText_roundTrip`); and of every text that is read the written
form is read again, is equal, and is written the same once more (`Mapping.toText_of_parse`).

Both come out of the same two facts. The tree of a written mapping fits the schema, with a mapping
that is equal to the written one (`exists_fits_mapping`). And whatever comes out of a reader can
be written, no deeper than the reader had room for (`Mapping.exists_toJson_of_read`): every
spelling of a record takes as many brackets as its canonical one, or more.
-/
import StagedRollout.Proofs.Json.Written
import StagedRollout.Proofs.Mapping.Acceptance
import StagedRollout.Proofs.Mapping.Written

namespace StagedRollout

open JsonTree (DistinctKeys PlainNumber Regular)

/- Powers of natural numbers are the core library's own. -/
attribute [local instance (2000)] instPowNat

/- The unit is never multiplied out. -/
attribute [local irreducible] unitsOfOne unitsLimit

/-! ## Written forms fit the schema -/

theorem natAbs_signed (negative : Bool) (n : Nat) : (signed negative n).natAbs = n := by
  cases negative <;> simp [signed]

/-- The sign of an integer is that of the number it came from, unless both are zero. -/
theorem signed_of_lt_zero (negative : Bool) (n k : Nat) :
    signed (decide (signed negative n < 0)) (n * k) = signed negative (n * k) := by
  cases negative with
  | false =>
    have hpos : ¬signed false n < 0 := by
      show ¬(n : Int) < 0
      omega
    rw [decide_eq_false hpos]
  | true =>
    -- an integer has no negative zero, and nothing is left to sign
    by_cases hzero : n = 0
    · subst hzero
      rw [Nat.zero_mul]
      rfl
    · have hneg : signed true n < 0 := by
        show -(n : Int) < 0
        omega
      rw [decide_eq_true hneg]

/-- The integer of a number is read as that number. -/
theorem same_of_toInt? {x : Binary64} {i : Int} (h : x.toInt? = some i) :
    (Decimal.toBinary64 ⟨decide (i < 0), i.natAbs, 0⟩).same x = true := by
  cases x with
  | finite negative m =>
    rw [Binary64.toInt?] at h
    split at h
    · next hwhole =>
      have hunits : m.units / unitsOfOne * unitsOfOne = m.units :=
        Nat.div_mul_cancel (Nat.dvd_of_mod_eq_zero hwhole)
      have hsign := signed_of_lt_zero negative (m.units / unitsOfOne) unitsOfOne
      obtain rfl := Option.some.inj h
      rw [natAbs_signed, Decimal.toBinary64_whole _ hwhole, Binary64.same_iff]
      rw [hunits] at hsign
      exact ⟨_, congrArg some hsign, rfl⟩
    · exact absurd h (by simp)
  | _ => exact absurd h (by simp [Binary64.toInt?])

/-- The tree of a written number is a number that is equal to it. -/
theorem exists_fits_number {x : Binary64} {tree : JsonTree} (hfinite : x.isFinite = true)
    (hdenotes : Denotes tree (Operand.numberJson x)) (hplain : tree.Every PlainNumber) :
    ∃ y, FitsOperand tree (.number y) ∧ y.same x = true := by
  unfold Operand.numberJson at hdenotes
  split at hdenotes
  · next i hi =>
    split at hdenotes
    · cases hdenotes with
      | int hint =>
        -- written without a point, read back as an integer
        have hvalue := Numeral.ofNumber?_of_value? hplain.self (Numeral.value?_of_toInt? hint)
        refine ⟨_, .number _, ?_⟩
        rw [← Option.some.inj hvalue]
        exact same_of_toInt? hi
    · cases hdenotes with
      | float _ hread _ => exact ⟨_, .number _, by rw [hread, Binary64.same_self hfinite]⟩
  · cases hdenotes with
    | float _ hread _ => exact ⟨_, .number _, by rw [hread, Binary64.same_self hfinite]⟩

theorem denotesItems_texts {trees : List JsonTree} {contents : List String}
    (h : DenotesItems trees (contents.map Json.text)) : trees = contents.map .text := by
  induction contents generalizing trees with
  | nil =>
    cases h
    rfl
  | cons content rest ih =>
    cases h with
    | cons hhead hrest =>
      cases hhead
      rw [ih hrest, List.map_cons]

theorem every_texts {P : JsonTree → Prop} (h : ∀ content, P (.text content))
    (contents : List String) : EveryItem P (contents.map .text) := by
  induction contents with
  | nil => trivial
  | cons content rest ih => exact ⟨h content, ih⟩

/-- The written form of an operand fits an equal one. -/
theorem exists_fits_operand {operand : Operand} {json : Json} {tree : JsonTree}
    (h : operand.toJson = .ok json) (hdenotes : Denotes tree json)
    (hplain : tree.Every PlainNumber) :
    tree.Every DistinctKeys ∧
      ∃ operand', FitsOperand tree operand' ∧ operand'.same operand = true := by
  cases operand with
  | number x =>
    rw [Operand.toJson] at h
    split at h
    · next hfinite =>
      obtain rfl := Except.ok.inj h
      obtain ⟨y, hfits, hsame⟩ := exists_fits_number hfinite hdenotes hplain
      cases hfits
      exact ⟨trivial, _, .number _, hsame⟩
    · exact absurd h (by simp)
  | text content =>
    obtain rfl := Except.ok.inj h
    cases hdenotes
    exact ⟨trivial, _, .text content, by simp [Operand.same]⟩
  | texts contents =>
    obtain rfl := Except.ok.inj h
    cases hdenotes with
    | array hitems =>
      obtain rfl := denotesItems_texts hitems
      exact ⟨⟨trivial, every_texts (fun _ => trivial) contents⟩, _, .texts contents,
        by simp [Operand.same]⟩

/-- The written form of a predicate fits an equal one: its members are there, each once. -/
theorem exists_fits_predicate {p : Predicate} {json : Json} {tree : JsonTree}
    (h : p.toJson = .ok json) (hdenotes : Denotes tree json) (hplain : tree.Every PlainNumber) :
    tree.Every DistinctKeys ∧
      ∃ members p', tree = .object members ∧ FitsPredicate members p' ∧ p'.same p = true := by
  obtain ⟨operand, hoperand, rfl⟩ := Predicate.toJson_eq_ok.1 h
  -- the tree has the three members that were written, in their order
  obtain _ | _ | _ | _ | _ | _ | ⟨hmembers⟩ := hdenotes
  obtain _ | ⟨hfirst, _ | ⟨hsecond, _ | ⟨hthird, ⟨⟩⟩⟩⟩ := hmembers
  cases hsecond
  cases hthird
  obtain ⟨-, hplain, -⟩ := hplain
  obtain ⟨hkeys, operand', hfits, hsame⟩ := exists_fits_operand hoperand hfirst hplain
  refine ⟨⟨?_, hkeys, trivial, trivial, trivial⟩, _, ⟨operand', p.clientKey, p.operator⟩, rfl,
    ⟨⟨_, by simp, hfits⟩, by simp, ⟨_, by simp, .token _⟩⟩, ?_⟩
  · show ["operand", "clientKey", "branchMappingOperator"].Nodup
    decide
  · simp [Predicate.same, hsame]

/-- The tree of a written statement is an array with its keyword in front. -/
theorem exists_statement_tree {keyword : String} {jsons : List Json} {tree : JsonTree}
    (h : Denotes tree (.array (.text keyword :: jsons))) :
    ∃ trees, tree = .array (.text keyword :: trees) ∧ DenotesItems trees jsons := by
  obtain _ | _ | _ | _ | _ | ⟨hitems⟩ | _ := h
  obtain _ | ⟨hkeyword, hrest⟩ := hitems
  cases hkeyword
  exact ⟨_, rfl, hrest⟩

mutual

/-- The tree of a written node fits as a node that is equal to it. -/
theorem exists_fits_node : ∀ {node : Node} {json : Json} {tree : JsonTree},
    node.toJson = .ok json → Denotes tree json → tree.Every PlainNumber →
    tree.Every DistinctKeys ∧ ∃ node', FitsNode tree node' ∧ node'.same node = true
  | .alwaysTrue, json, tree, h, hdenotes, _ => by
      rw [Node.toJson] at h
      obtain rfl := Except.ok.inj h
      cases hdenotes
      exact ⟨trivial, _, .alwaysTrue, rfl⟩
  | .predicate p, json, tree, h, hdenotes, hplain => by
      rw [Node.toJson] at h
      obtain ⟨hkeys, members, p', rfl, hfits, hsame⟩ := exists_fits_predicate h hdenotes hplain
      exact ⟨hkeys, _, .predicate hfits, hsame⟩
  | .all nodes, json, tree, h, hdenotes, hplain => by
      rw [Node.toJson] at h
      obtain ⟨jsons, hnodes, rfl⟩ := Outcome.map_eq_ok.1 h
      obtain ⟨trees, rfl, hrest⟩ := exists_statement_tree hdenotes
      obtain ⟨hkeys, nodes', hfits, hsame⟩ := exists_fits_nodes hnodes hrest hplain.2.2
      exact ⟨⟨trivial, trivial, hkeys⟩, _, .all hfits, hsame⟩
  | .any nodes, json, tree, h, hdenotes, hplain => by
      rw [Node.toJson] at h
      obtain ⟨jsons, hnodes, rfl⟩ := Outcome.map_eq_ok.1 h
      obtain ⟨trees, rfl, hrest⟩ := exists_statement_tree hdenotes
      obtain ⟨hkeys, nodes', hfits, hsame⟩ := exists_fits_nodes hnodes hrest hplain.2.2
      exact ⟨⟨trivial, trivial, hkeys⟩, _, .any hfits, hsame⟩
  | .not node, json, tree, h, hdenotes, hplain => by
      rw [Node.toJson] at h
      obtain ⟨json, hnode, rfl⟩ := Outcome.map_eq_ok.1 h
      obtain ⟨trees, rfl, hrest⟩ := exists_statement_tree hdenotes
      obtain _ | ⟨hitem, ⟨⟩⟩ := hrest
      obtain ⟨hkeys, node', hfits, hsame⟩ := exists_fits_node hnode hitem hplain.2.2.1
      exact ⟨⟨trivial, trivial, hkeys, trivial⟩, _, .not hfits, hsame⟩

theorem exists_fits_nodes : ∀ {nodes : List Node} {jsons : List Json} {trees : List JsonTree},
    nodesToJson nodes = .ok jsons → DenotesItems trees jsons → EveryItem PlainNumber trees →
    EveryItem DistinctKeys trees ∧
      ∃ nodes', FitsNodes trees nodes' ∧ sameNodes nodes' nodes = true
  | [], jsons, trees, h, hdenotes, _ => by
      rw [nodesToJson] at h
      obtain rfl := Except.ok.inj h
      cases hdenotes
      exact ⟨trivial, _, .nil, rfl⟩
  | node :: rest, jsons, trees, h, hdenotes, hplain => by
      rw [nodesToJson] at h
      obtain ⟨json, hnode, h⟩ := Outcome.bind_eq_ok.1 h
      obtain ⟨jsons, hrest, h⟩ := Outcome.bind_eq_ok.1 h
      obtain rfl := Except.ok.inj h
      obtain _ | ⟨hitem, hitems⟩ := hdenotes
      obtain ⟨hkeys, node', hfits, hsame⟩ := exists_fits_node hnode hitem hplain.1
      obtain ⟨hkeys', nodes', hfits', hsame'⟩ := exists_fits_nodes hrest hitems hplain.2
      refine ⟨⟨hkeys, hkeys'⟩, node' :: nodes', .cons hfits hfits', ?_⟩
      rw [sameNodes, hsame, hsame']
      rfl

end

/-- The written form of an entry fits an equal one. -/
theorem exists_fits_entry {entry : Entry} {json : Json} {tree : JsonTree}
    (h : entry.toJson = .ok json) (hdenotes : Denotes tree json)
    (hplain : tree.Every PlainNumber) :
    tree.Every DistinctKeys ∧ ∃ entry', FitsEntry tree entry' ∧
      entry'.branchId = entry.branchId ∧ entry'.logic.same entry.logic = true := by
  obtain ⟨logic, hlogic, rfl⟩ := Entry.toJson_eq_ok.1 h
  obtain _ | _ | _ | _ | _ | _ | ⟨hmembers⟩ := hdenotes
  obtain _ | ⟨hfirst, _ | ⟨hsecond, ⟨⟩⟩⟩ := hmembers
  cases hfirst
  obtain ⟨-, -, hplain, -⟩ := hplain
  obtain ⟨hkeys, node', hfits, hsame⟩ := exists_fits_node hlogic hsecond hplain
  refine ⟨⟨?_, trivial, hkeys, trivial⟩, ⟨entry.branchId, node'⟩, ?_, rfl, hsame⟩
  · show ["branchId", "branchMappingLogic"].Nodup
    decide
  · exact .object (by simp) (List.mem_cons_of_mem _ (by simp)) hfits

/-- The written forms of entries fit equal ones, in order. -/
theorem exists_fits_entries {entries : List Entry} {jsons : List Json} {trees : List JsonTree}
    (h : entriesToJson entries = .ok jsons) (hdenotes : DenotesItems trees jsons)
    (hplain : EveryItem PlainNumber trees) :
    EveryItem DistinctKeys trees ∧ ∃ entries', List.Forall₂ FitsEntry trees entries' ∧
      Mapping.sameEntries entries' entries = true := by
  induction entries generalizing jsons trees with
  | nil =>
    obtain rfl := Except.ok.inj h
    cases hdenotes
    exact ⟨trivial, [], .nil, rfl⟩
  | cons entry rest ih =>
    obtain ⟨json, tail, hentry, hrest, rfl⟩ := entriesToJson_cons_eq_ok.1 h
    obtain _ | ⟨hitem, hitems⟩ := hdenotes
    obtain ⟨hkeys, entry', hfits, hbranchId, hsame⟩ := exists_fits_entry hentry hitem hplain.1
    obtain ⟨hkeys', entries', hfits', hsame'⟩ := ih hrest hitems hplain.2
    refine ⟨⟨hkeys, hkeys'⟩, entry' :: entries', .cons hfits hfits', ?_⟩
    simp [Mapping.sameEntries, hbranchId, hsame, hsame']

/-- **The tree of a written mapping fits the schema**, with a mapping that is equal to the
written one. -/
theorem exists_fits_mapping {m : Mapping} {json : Json} {tree : JsonTree}
    (h : m.toJson = .ok json) (hdenotes : Denotes tree json) (hplain : tree.Every PlainNumber) :
    tree.Every DistinctKeys ∧ ∃ m', FitsMapping tree m' ∧ m'.same m = true := by
  obtain ⟨jsons, hentries, rfl⟩ := Mapping.toJson_eq_ok.1 h
  -- the tree is an object of the two fields, the second of them an array
  obtain _ | _ | _ | _ | _ | _ | ⟨hmembers⟩ := hdenotes
  obtain _ | ⟨hfirst, _ | ⟨hsecond, ⟨⟩⟩⟩ := hmembers
  obtain _ | _ | _ | _ | _ | ⟨hitems⟩ | _ := hsecond
  obtain ⟨-, -, ⟨-, hplain⟩, -⟩ := hplain
  obtain ⟨hkeys, entries', hfits, hsame⟩ := exists_fits_entries hentries hitems hplain
  cases hfirst with
  | int hint =>
    have hword : m.version.toNat < Numeral.unsignedSpan :=
      Nat.lt_trans m.version.toNat_lt (by decide)
    obtain ⟨hwhole, hneg, hcoefficient⟩ := (Numeral.toInt?_eq_natCast hword).1 hint
    refine ⟨⟨?_, trivial, ⟨trivial, hkeys⟩, trivial⟩, ⟨m.version, entries'⟩, ?_, ?_⟩
    · show ["version", "data"].Nodup
      decide
    · exact .object (by simp) (.literal hwhole hneg hcoefficient)
        (List.mem_cons_of_mem _ (by simp)) (.array hfits)
    · simp [Mapping.same, hsame]

/-! ## What is read can be written -/

theorem depth_numberJson (x : Binary64) : (Operand.numberJson x).depth = 0 := by
  unfold Operand.numberJson
  split
  · split <;> rfl
  · rfl

theorem jsonsDepth_texts (contents : List String) : jsonsDepth (contents.map Json.text) = 0 := by
  induction contents with
  | nil => rfl
  | cons content rest ih =>
    rw [List.map_cons, jsonsDepth, ih]
    rfl

/-- A numeral that has a value at all is read as a finite number. -/
theorem isFinite_of_value? {n : Numeral} {json : Json} {x : Binary64} (h : n.value? = some json)
    (hx : Operand.ofNumber? json = some x) : x.isFinite = true := by
  obtain ⟨i, hint, rfl⟩ | ⟨y, rfl, hfinite⟩ := Numeral.value?_eq_some h
  · obtain rfl := Option.some.inj hx
    obtain ⟨-, hlt, habs, -⟩ := Numeral.toInt?_eq_some hint
    rw [habs]
    exact Decimal.isFinite_integer _ hlt
  · obtain rfl := Option.some.inj hx
    exact hfinite

/-- An operand that was read is finite, and only an array takes room. -/
theorem Operand.exists_toJson_of_read {room : Nat} {o : Outline} {operand : Operand}
    (h : Operand.read room o = .ok operand) :
    ∃ json, operand.toJson = .ok json ∧ json.depth ≤ room := by
  obtain ⟨n, json, x, rfl, hvalue, hx, rfl⟩ | ⟨content, rfl, rfl⟩ |
    ⟨left, items, contents, rfl, rfl, -, rfl⟩ := exists_of_read h
  · refine ⟨numberJson x, ?_, ?_⟩
    · rw [toJson, if_pos (isFinite_of_value? hvalue hx)]
    · rw [depth_numberJson]
      exact Nat.zero_le _
  · exact ⟨_, rfl, Nat.zero_le _⟩
  · refine ⟨_, rfl, ?_⟩
    rw [Json.depth, jsonsDepth_texts]
    omega

/-- A predicate that was read can be written, and needs no more room than it had. -/
theorem Predicate.exists_toJson_of_read {room : Nat} {members : Members} {p : Predicate}
    (h : Predicate.read room members = .ok p) :
    ∃ json, p.toJson = .ok json ∧ json.depth ≤ room + 1 := by
  obtain ⟨⟨o, -, hread⟩, -, -⟩ := Predicate.exists_of_read h
  obtain ⟨json, hjson, hdepth⟩ := Operand.exists_toJson_of_read hread
  refine ⟨_, toJson_eq_ok.2 ⟨json, hjson, rfl⟩, ?_⟩
  simp only [Json.depth, jsonMembersDepth]
  omega

mutual

/-- **What is read as a node can be written**, no deeper than there was room to read it. -/
theorem Node.exists_toJson_of_read : ∀ (o : Outline) {room : Nat} {node : Node},
    Node.read room o = .ok node → ∃ json, node.toJson = .ok json ∧ json.depth ≤ room
  | .text content, room, node, h => by
      obtain ⟨-, rfl⟩ := Node.read_text h
      exact ⟨.text "true", by rw [Node.toJson], Nat.zero_le _⟩
  | .object members, room, node, h => by
      obtain ⟨left, p, rfl, hread, rfl⟩ := Node.read_object h
      obtain ⟨json, hjson, hdepth⟩ := Predicate.exists_toJson_of_read hread
      exact ⟨json, by rw [Node.toJson, hjson], hdepth⟩
  | .array (.item head tail), room, node, h => by
      obtain ⟨left, _, _, keyword, nodes, rfl, hitems, -, hnodes, hnode⟩ := Node.read_array h
      obtain ⟨rfl, rfl⟩ := Items.item.inj hitems
      obtain ⟨jsons, hjsons, hdepth⟩ := exists_nodesToJson_of_read tail hnodes
      refine ⟨.array (.text keyword :: jsons), ?_, ?_⟩
      · rw [Node.toJson_statement hnode, hjsons, Outcome.map_ok]
      · simp only [Json.depth, jsonsDepth]
        omega
  | .array .closed, room, node, h => by
      obtain ⟨_, _, _, _, _, -, hitems, -⟩ := Node.read_array h
      exact absurd hitems (by simp)
  | .array (.cut _), room, node, h => by
      obtain ⟨_, _, _, _, _, -, hitems, -⟩ := Node.read_array h
      exact absurd hitems (by simp)
  | .array .malformed, room, node, h => by
      obtain ⟨_, _, _, _, _, -, hitems, -⟩ := Node.read_array h
      exact absurd hitems (by simp)
  | .null, _, _, h => absurd h Outline.refuse_ne_ok
  | .bool _, _, _, h => absurd h Outline.refuse_ne_ok
  | .number _, _, _, h => absurd h Outline.refuse_ne_ok
  | .missing, _, _, h => absurd h Outline.refuse_ne_ok
  | .brokenText _ _, _, _, h => absurd h Outline.refuse_ne_ok
  | .broken _ _, _, _, h => absurd h Outline.refuse_ne_ok

theorem exists_nodesToJson_of_read : ∀ (items : Items) {room : Nat} {nodes : List Node},
    readNodes room items = .ok nodes →
      ∃ jsons, nodesToJson nodes = .ok jsons ∧ jsonsDepth jsons ≤ room
  | .closed, room, nodes, h => by
      rw [readNodes] at h
      obtain rfl := Except.ok.inj h
      exact ⟨[], by rw [nodesToJson], Nat.zero_le _⟩
  | .cut _, room, nodes, h => absurd h ReadResult.fault_ne_ok
  | .malformed, room, nodes, h => absurd h ReadResult.fault_ne_ok
  | .item head tail, room, nodes, h => by
      rw [readNodes] at h
      obtain ⟨node, hnode, h⟩ := Outcome.bind_eq_ok.1 h
      obtain ⟨rest, hrest, h⟩ := Outcome.bind_eq_ok.1 h
      obtain rfl := Except.ok.inj h
      obtain ⟨json, hjson, hdepth⟩ := Node.exists_toJson_of_read head hnode
      obtain ⟨jsons, hjsons, hdepth'⟩ := exists_nodesToJson_of_read tail hrest
      refine ⟨json :: jsons, ?_, ?_⟩
      · rw [nodesToJson, hjson, hjsons]
        rfl
      · rw [jsonsDepth]
        omega

end

/-- An entry that was read can be written in the room that it had. -/
theorem Entry.exists_toJson_of_read {room : Nat} {o : Outline} {entry : Entry}
    (h : Entry.read room o = .ok entry) :
    ∃ json, entry.toJson = .ok json ∧ json.depth ≤ room := by
  obtain ⟨left, rfl, hparts⟩ := Entry.exists_of_read h
  obtain ⟨o', hlogic⟩ : ∃ o', Node.read left o' = .ok entry.logic := by
    obtain ⟨_, -, -, o', -, hlogic⟩ | ⟨_, o', -, -, hlogic⟩ := hparts
    · exact ⟨o', hlogic⟩
    · exact ⟨o', hlogic⟩
  obtain ⟨json, hjson, hdepth⟩ := Node.exists_toJson_of_read o' hlogic
  refine ⟨_, toJson_eq_ok.2 ⟨json, hjson, rfl⟩, ?_⟩
  simp only [Json.depth, jsonMembersDepth]
  omega

theorem exists_entriesToJson {room : Nat} {entries : List Entry}
    (h : ∀ entry ∈ entries, ∃ json, entry.toJson = .ok json ∧ json.depth ≤ room) :
    ∃ jsons, entriesToJson entries = .ok jsons ∧ jsonsDepth jsons ≤ room := by
  induction entries with
  | nil => exact ⟨[], rfl, Nat.zero_le _⟩
  | cons entry rest ih =>
    obtain ⟨json, hjson, hdepth⟩ := h entry (by simp)
    obtain ⟨jsons, hjsons, hdepth'⟩ := ih fun entry hmem => h entry (List.mem_cons_of_mem _ hmem)
    refine ⟨json :: jsons, entriesToJson_cons_eq_ok.2 ⟨json, jsons, hjson, hjsons, rfl⟩, ?_⟩
    rw [jsonsDepth]
    omega

/-- The entries of a mapping that was read can be written, within two brackets less. -/
theorem Mapping.entries_of_read {room : Nat} {o : Outline} {m : Mapping}
    (h : Mapping.read room o = .ok m) :
    ∃ inner, room = inner + 2 ∧
      ∀ entry ∈ m.entries, ∃ json, entry.toJson = .ok json ∧ json.depth ≤ inner := by
  obtain ⟨left, rfl, hparts⟩ := Mapping.exists_of_read h
  obtain ⟨o', hentries⟩ : ∃ o', readList Entry.read left o' = .ok m.entries := by
    obtain ⟨_, -, -, o', -, hentries⟩ | ⟨_, o', -, -, hentries⟩ := hparts
    · exact ⟨o', hentries⟩
    · exact ⟨o', hentries⟩
  obtain ⟨items, inner, -, rfl, hread⟩ := readList_eq_ok.1 hentries
  refine ⟨inner, rfl, fun entry hmem => ?_⟩
  obtain ⟨o'', hentry⟩ := Items.exists_of_readAll hread hmem
  exact Entry.exists_toJson_of_read hentry

/-- A mapping can be written if its entries can, within two brackets more. -/
theorem Mapping.exists_toJson {room : Nat} {m : Mapping}
    (h : ∀ entry ∈ m.entries, ∃ json, entry.toJson = .ok json ∧ json.depth ≤ room) :
    ∃ json, m.toJson = .ok json ∧ json.depth ≤ room + 2 := by
  obtain ⟨jsons, hjsons, hdepth⟩ := exists_entriesToJson h
  refine ⟨_, toJson_eq_ok.2 ⟨jsons, hjsons, rfl⟩, ?_⟩
  simp only [Json.depth, jsonMembersDepth]
  omega

/-- **What is read as a mapping can be written**, no deeper than there was room to read it. -/
theorem Mapping.exists_toJson_of_read {room : Nat} {o : Outline} {m : Mapping}
    (h : Mapping.read room o = .ok m) :
    ∃ json, m.toJson = .ok json ∧ json.depth ≤ room := by
  obtain ⟨inner, rfl, hentries⟩ := Mapping.entries_of_read h
  exact Mapping.exists_toJson hentries

/-! ## Whole texts -/

namespace Mapping

theorem toText_eq_ok {m : Mapping} {text : String} :
    m.toText = .ok text ↔ ∃ json, m.toJson = .ok json ∧ json.compact = text := by
  unfold toText
  cases m.toJson <;> simp

/-- A mapping that is read at all is the one that its tree fits. -/
theorem eq_of_read {tree : JsonTree} {m m' : Mapping} {room : Nat}
    (hplain : tree.Every PlainNumber) (hregular : tree.Every Regular) (hfits : FitsMapping tree m)
    (h : Mapping.read room tree.outline = .ok m') : m = m' := by
  -- with all the room that the tree takes, the reader yields both
  have hread := hfits.read hregular (Nat.le_refl _)
  have hread' := (FitsMapping.of_read hplain h).read hregular (Nat.le_refl _)
  exact Except.ok.inj (hread.symm.trans hread')

/-- What becomes of the text that is written for a mapping, by the depth of its written form. -/
theorem parse_compact {m : Mapping} {json : Json} (hjson : m.toJson = .ok json) :
    openAtOnce json.compact.toList = json.depth ∧
      (json.depth ≤ nestingLimit → ∃ m', parse json.compact = .ok m' ∧ m'.same m = true) ∧
      (nestingLimit < json.depth →
        ∃ cause, parse json.compact = .error (.unreadable cause json.compact)) := by
  obtain ⟨tree, hspelled, hdenotes⟩ := spellsWhole_compact (writable hjson)
  have hplain := plainNumber_of_spellsWhole hspelled
  obtain ⟨hkeys, m', hfits, hsame⟩ := exists_fits_mapping hjson hdenotes hplain
  have hregular := every_and hplain (every_and (inRange_of_denotes hdenotes hplain) hkeys)
  rw [openAtOnce_of_spells hspelled, ← depth_of_denotes hdenotes]
  refine ⟨rfl, ?_, ?_⟩
  · intro hdepth
    refine ⟨m', ?_, hsame⟩
    rw [parse_eq_ok, readWhole_spelled hspelled]
    exact hfits.read hregular hdepth
  · intro hdepth
    cases hparse : parse json.compact with
    | error e =>
      unfold parse at hparse
      split at hparse
      · exact absurd hparse (by simp)
      · next cause _ => exact ⟨cause, by rw [Except.error.inj hparse]⟩
    | ok m'' =>
      -- it would be the same mapping, and could be written with fewer brackets than it was
      rw [parse_eq_ok, readWhole_spelled hspelled] at hparse
      obtain ⟨json', hjson', hdepth'⟩ := exists_toJson_of_read hparse
      obtain rfl := eq_of_read hplain hregular hfits hparse
      rw [toJson_of_same hsame, hjson] at hjson'
      rw [depth_of_denotes hdenotes, Except.ok.inj hjson'] at hdepth
      omega

/-- **Writing and reading.** A mapping can be written just when all of its numbers are finite,
and otherwise the first one that is not is named. The text is read as an equal mapping if it has
no more than 127 brackets open at once, and cannot be read if it has more. -/
theorem toText_roundTrip (m : Mapping) :
    ((∃ text, m.toText = .ok text) ↔ ∀ x ∈ m.numbers, x.isFinite = true) ∧
      (∀ x, firstUnwritable? m.numbers = some x → m.toText = .error (.unwritable ⟨x⟩)) ∧
      ∀ text, m.toText = .ok text →
        (openAtOnce text.toList ≤ nestingLimit → ∃ m', parse text = .ok m' ∧ m'.same m = true) ∧
        (nestingLimit < openAtOnce text.toList →
          ∃ cause, parse text = .error (.unreadable cause text)) := by
  have hreports := m.reports_toJson
  refine ⟨?_, ?_, ?_⟩
  · rw [← hreports.exists_ok_iff]
    simp only [toText_eq_ok]
    constructor
    · rintro ⟨_, json, hjson, -⟩
      exact ⟨json, hjson⟩
    · rintro ⟨json, hjson⟩
      exact ⟨_, json, hjson, rfl⟩
  · intro x hx
    rw [toText, hreports.error_of_first hx]
  · intro text htext
    obtain ⟨json, hjson, rfl⟩ := toText_eq_ok.1 htext
    obtain ⟨hopen, hread, hfail⟩ := parse_compact hjson
    rw [hopen]
    exact ⟨hread, hfail⟩

/-- **The canonical form is stable.** Whatever text is read as a mapping, the mapping can be
written, what is written is read as an equal mapping, and that is written the same. -/
theorem toText_of_parse {raw : String} {m : Mapping} (h : parse raw = .ok m) :
    ∃ text, m.toText = .ok text ∧
      ∃ m', parse text = .ok m' ∧ m'.same m = true ∧ m'.toText = .ok text := by
  obtain ⟨o, hread⟩ := exists_of_readWhole (parse_eq_ok.1 h)
  obtain ⟨json, hjson, hdepth⟩ := exists_toJson_of_read hread
  obtain ⟨-, hparse, -⟩ := parse_compact hjson
  obtain ⟨m', hm', hsame⟩ := hparse hdepth
  refine ⟨json.compact, toText_eq_ok.2 ⟨json, hjson, rfl⟩, m', hm', hsame, ?_⟩
  rw [toText_eq_ok, toJson_of_same hsame]
  exact ⟨json, hjson, rfl⟩

/-- The array forms, a stranger among the fields, an operator as an object, and a whole number
with a fraction. -/
theorem toText_of_parse_handwritten :
    ∃ m, parse "[3, [[\"B1\", [\"not\",
    \x7b\"note\":[[]], \"clientKey\":\"k\", \"operand\":5.0,
    \"branchMappingOperator\":\x7b\"<\":null\x7d\x7d]]]]" = .ok m ∧
      ∃ text, m.toText = .ok text ∧
        ∃ m', parse text = .ok m' ∧ m'.same m = true ∧ m'.toText = .ok text := by
  obtain ⟨m, hm⟩ := Outcome.exists_of_isOk (x := parse "[3, [[\"B1\", [\"not\",
    \x7b\"note\":[[]], \"clientKey\":\"k\", \"operand\":5.0,
    \"branchMappingOperator\":\x7b\"<\":null\x7d\x7d]]]]") (by decide +kernel)
  exact ⟨m, hm, toText_of_parse hm⟩

end Mapping

end StagedRollout
