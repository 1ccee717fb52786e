/-
# StagedRollout.Proofs.Mapping.Records -- the records of a mapping, opened up

A mapping, an entry and a predicate are each gathered in a draft. For each of them stands here
which fields the draft has, that its step treats them as fields (`Governs`), what a successful
reading found, and, where the record comes from a tree with distinct keys, what is enough for a
reading to succeed.
-/
import StagedRollout.Proofs.Wire.Fields
import StagedRollout.Mapping.Text

namespace StagedRollout

/-! ## Predicates -/

namespace PredicateDraft

/-- The fields of a predicate. -/
def fields (room : Nat) : List (Field PredicateDraft) :=
  [⟨"operand", Operand, operand, fun d value => { d with operand := value }, Operand.read room⟩,
    ⟨"clientKey", String, clientKey, fun d value => { d with clientKey := value }, readText⟩,
    ⟨"branchMappingOperator", Operator, operator, fun d value => { d with operator := value },
      Operator.read room⟩]

theorem governs (room : Nat) : Governs (take room) (fields room) where
  own := by
    intro f hf s o
    simp only [fields, List.mem_cons, List.not_mem_nil, or_false] at hf
    rcases hf with rfl | rfl | rfl <;> rfl
  slot_fill := by
    intro f hf s value
    simp only [fields, List.mem_cons, List.not_mem_nil, or_false] at hf
    rcases hf with rfl | rfl | rfl <;> rfl
  slot_other := by
    intro f hf g hg hne s value
    simp only [fields, List.mem_cons, List.not_mem_nil, or_false] at hf hg
    rcases hf with rfl | rfl | rfl <;> rcases hg with rfl | rfl | rfl <;>
      first | rfl | exact absurd rfl hne
  passes := by
    intro key hkey s o
    simp only [fields, List.forall_mem_cons] at hkey
    unfold take
    split
    · exact absurd rfl hkey.1
    · exact absurd rfl hkey.2.1
    · exact absurd rfl hkey.2.2.1
    · rfl

theorem finish_eq_ok {draft : PredicateDraft} {p : Predicate} :
    draft.finish = .ok p ↔
      draft = ⟨some p.operand, some p.clientKey, some p.operator⟩ := by
  obtain ⟨operand, clientKey, operator⟩ := draft
  simp only [finish, Outcome.bind_eq_ok, required_eq_ok, Outcome.pure_eq_ok, Except.ok.injEq,
    mk.injEq]
  constructor
  · rintro ⟨_, rfl, _, rfl, _, rfl, rfl⟩
    exact ⟨rfl, rfl, rfl⟩
  · rintro ⟨rfl, rfl, rfl⟩
    exact ⟨_, rfl, _, rfl, _, rfl, rfl⟩

end PredicateDraft

/-- What a predicate holds was read off its members. -/
theorem Predicate.exists_of_read {room : Nat} {members : Members} {p : Predicate}
    (h : Predicate.read room members = .ok p) :
    (∃ o, members.Has "operand" o ∧ Operand.read room o = .ok p.operand) ∧
      (∃ o, members.Has "clientKey" o ∧ readText o = .ok p.clientKey) ∧
      ∃ o, members.Has "branchMappingOperator" o ∧ Operator.read room o = .ok p.operator := by
  obtain ⟨draft, hgather, hfinish⟩ := Outcome.bind_eq_ok.1 h
  obtain rfl := PredicateDraft.finish_eq_ok.1 hfinish
  have hg := PredicateDraft.governs room
  -- every slot was empty at first and is full in the end
  refine ⟨?_, ?_, ?_⟩
  · exact hg.gather_fills (.head _) hgather rfl rfl
  · exact hg.gather_fills (.tail _ (.head _)) hgather rfl rfl
  · exact hg.gather_fills (.tail _ (.tail _ (.head _))) hgather rfl rfl

/-- A predicate is read off members with distinct keys if each of its fields is. -/
theorem Predicate.read_of_members {room : Nat} {members : List (String × JsonTree)}
    {p : Predicate} (hdistinct : (members.map Prod.fst).Nodup)
    (hoperand : ∃ tree, ("operand", tree) ∈ members ∧
      Operand.read room tree.outline = .ok p.operand)
    (hclientKey : ∃ tree, ("clientKey", tree) ∈ members ∧
      readText tree.outline = .ok p.clientKey)
    (hoperator : ∃ tree, ("branchMappingOperator", tree) ∈ members ∧
      Operator.read room tree.outline = .ok p.operator) :
    Predicate.read room (membersOutline members) = .ok p := by
  have hempty : ∀ f ∈ PredicateDraft.fields room, f.slot PredicateDraft.empty = none := by
    simp [PredicateDraft.fields, PredicateDraft.empty]
  have hgiven : ∀ f ∈ PredicateDraft.fields room, ∃ value, Governs.Given members f value := by
    simp only [PredicateDraft.fields, List.forall_mem_cons]
    exact ⟨⟨_, hoperand⟩, ⟨_, hclientKey⟩, ⟨_, hoperator⟩, by simp⟩
  obtain ⟨draft, hgather, hslots⟩ :=
    (PredicateDraft.governs room).gather_given hdistinct hempty hgiven
  -- what each slot holds in the end makes up the whole draft
  simp only [PredicateDraft.fields, List.forall_mem_cons] at hslots
  rw [Predicate.read, hgather, Outcome.ok_bind, PredicateDraft.finish_eq_ok]
  obtain ⟨operand, clientKey, operator⟩ := draft
  obtain rfl : operand = _ := hslots.1 _ hoperand
  obtain rfl : clientKey = _ := hslots.2.1 _ hclientKey
  obtain rfl : operator = _ := hslots.2.2.1 _ hoperator
  rfl

/-! ## Nodes -/

theorem Node.ofStatement_eq_ok {keyword : String} {nodes : List Node} {node : Node} :
    ofStatement keyword nodes = .ok node ↔ node.statement? = some (keyword, nodes) := by
  refine ⟨fun h => ?_, ofStatement_statement?⟩
  unfold ofStatement at h
  -- three keywords have a statement; a negation of other than one node has none
  split at h
  · obtain rfl := Except.ok.inj h; rfl
  · obtain rfl := Except.ok.inj h; rfl
  · obtain rfl := Except.ok.inj h; rfl
  · exact absurd h ReadResult.mismatch_ne_ok
  · exact absurd h ReadResult.mismatch_ne_ok

theorem Node.read_text {room : Nat} {content : Except Fault String} {node : Node}
    (h : Node.read room (.text content) = .ok node) :
    content = .ok "true" ∧ node = .alwaysTrue := by
  rw [Node.read] at h
  obtain ⟨word, hword, h⟩ := Outcome.bind_eq_ok.1 h
  split at h
  · next heq =>
    rw [ReadResult.ofText_eq_ok.1 hword, heq]
    exact ⟨rfl, (Except.ok.inj h).symm⟩
  · exact absurd h ReadResult.mismatch_ne_ok

theorem Node.read_object {room : Nat} {members : Members} {node : Node}
    (h : Node.read room (.object members) = .ok node) :
    ∃ left p, room = left + 1 ∧ Predicate.read left members = .ok p ∧ node = .predicate p := by
  rw [Node.read] at h
  obtain ⟨left, rfl, h⟩ := opening_eq_ok.1 h
  obtain ⟨p, hread, rfl⟩ := Outcome.map_eq_ok.1 h
  exact ⟨left, p, rfl, hread, rfl⟩

/-- An array that is read as a node has a keyword and nodes that make up a statement. -/
theorem Node.read_array {room : Nat} {items : Items} {node : Node}
    (h : Node.read room (.array items) = .ok node) :
    ∃ left head tail keyword nodes, room = left + 1 ∧ items = .item head tail ∧
      readText head = .ok keyword ∧ readNodes left tail = .ok nodes ∧
        node.statement? = some (keyword, nodes) := by
  cases room with
  | zero => cases items <;> exact absurd h ReadResult.fault_ne_ok
  | succ left =>
    cases items with
    | closed => exact absurd h ReadResult.mismatch_ne_ok
    | cut afterComma => exact absurd h ReadResult.fault_ne_ok
    | malformed => exact absurd h ReadResult.fault_ne_ok
    | item head tail =>
      rw [Node.read] at h
      obtain ⟨keyword, hkeyword, h⟩ := Outcome.bind_eq_ok.1 h
      obtain ⟨nodes, hnodes, h⟩ := Outcome.bind_eq_ok.1 h
      exact ⟨left, head, tail, keyword, nodes, rfl, rfl, hkeyword, hnodes,
        Node.ofStatement_eq_ok.1 h⟩

/-! ## Entries -/

namespace EntryDraft

/-- The fields of an entry. -/
def fields (room : Nat) : List (Field EntryDraft) :=
  [⟨"branchId", String, branchId, fun d value => { d with branchId := value }, readText⟩,
    ⟨"branchMappingLogic", Node, logic, fun d value => { d with logic := value },
      Node.read room⟩]

theorem governs (room : Nat) : Governs (take room) (fields room) where
  own := by
    intro f hf s o
    simp only [fields, List.mem_cons, List.not_mem_nil, or_false] at hf
    rcases hf with rfl | rfl <;> rfl
  slot_fill := by
    intro f hf s value
    simp only [fields, List.mem_cons, List.not_mem_nil, or_false] at hf
    rcases hf with rfl | rfl <;> rfl
  slot_other := by
    intro f hf g hg hne s value
    simp only [fields, List.mem_cons, List.not_mem_nil, or_false] at hf hg
    rcases hf with rfl | rfl <;> rcases hg with rfl | rfl <;>
      first | rfl | exact absurd rfl hne
  passes := by
    intro key hkey s o
    simp only [fields, List.forall_mem_cons] at hkey
    unfold take
    split
    · exact absurd rfl hkey.1
    · exact absurd rfl hkey.2.1
    · rfl

theorem finish_eq_ok {draft : EntryDraft} {entry : Entry} :
    draft.finish = .ok entry ↔ draft = ⟨some entry.branchId, some entry.logic⟩ := by
  obtain ⟨branchId, logic⟩ := draft
  simp only [finish, Outcome.bind_eq_ok, required_eq_ok, Outcome.pure_eq_ok, Except.ok.injEq,
    mk.injEq]
  constructor
  · rintro ⟨_, rfl, _, rfl, rfl⟩
    exact ⟨rfl, rfl⟩
  · rintro ⟨rfl, rfl⟩
    exact ⟨_, rfl, _, rfl, rfl⟩

end EntryDraft

/-- What an entry holds was read off its members, or off its two items. -/
theorem Entry.exists_of_read {room : Nat} {o : Outline} {entry : Entry}
    (h : Entry.read room o = .ok entry) : ∃ left, room = left + 1 ∧
      ((∃ members, o = .object members ∧
          (∃ o', members.Has "branchId" o' ∧ readText o' = .ok entry.branchId) ∧
          ∃ o', members.Has "branchMappingLogic" o' ∧ Node.read left o' = .ok entry.logic) ∨
        ∃ first second, o = .array (.item first (.item second .closed)) ∧
          readText first = .ok entry.branchId ∧ Node.read left second = .ok entry.logic) := by
  cases o with
  | object members =>
    obtain ⟨left, rfl, h⟩ := opening_eq_ok.1 h
    obtain ⟨draft, hgather, hfinish⟩ := Outcome.bind_eq_ok.1 h
    obtain rfl := EntryDraft.finish_eq_ok.1 hfinish
    have hg := EntryDraft.governs left
    refine ⟨left, rfl, .inl ⟨members, rfl, ?_, ?_⟩⟩
    · exact hg.gather_fills (.head _) hgather rfl rfl
    · exact hg.gather_fills (.tail _ (.head _)) hgather rfl rfl
  | array items =>
    obtain ⟨left, rfl, h⟩ := opening_eq_ok.1 h
    -- the end of the array is judged after both of its items
    obtain ⟨⟨branchId, tail⟩, hfirst, h⟩ := Outcome.bind_eq_ok.1 h
    obtain ⟨⟨logic, rest⟩, hsecond, h⟩ := Outcome.bind_eq_ok.1 h
    obtain ⟨⟨⟩, hfinish, h⟩ := Outcome.bind_eq_ok.1 h
    obtain rfl := Except.ok.inj h
    obtain ⟨first, rfl, hbranch⟩ := Items.next_eq_ok.1 hfirst
    obtain ⟨second, rfl, hlogic⟩ := Items.next_eq_ok.1 hsecond
    obtain rfl := Items.finish_eq_ok.1 hfinish
    exact ⟨left, rfl, .inr ⟨first, second, rfl, hbranch, hlogic⟩⟩
  | _ => exact absurd h Outline.refuse_ne_ok

/-- An entry is read off members with distinct keys if both of its fields are. -/
theorem Entry.read_of_members {room : Nat} {members : List (String × JsonTree)} {entry : Entry}
    (hdistinct : (members.map Prod.fst).Nodup)
    (hbranchId : ∃ tree, ("branchId", tree) ∈ members ∧
      readText tree.outline = .ok entry.branchId)
    (hlogic : ∃ tree, ("branchMappingLogic", tree) ∈ members ∧
      Node.read room tree.outline = .ok entry.logic) :
    Entry.read (room + 1) (.object (membersOutline members)) = .ok entry := by
  have hempty : ∀ f ∈ EntryDraft.fields room, f.slot EntryDraft.empty = none := by
    simp [EntryDraft.fields, EntryDraft.empty]
  have hgiven : ∀ f ∈ EntryDraft.fields room, ∃ value, Governs.Given members f value := by
    simp only [EntryDraft.fields, List.forall_mem_cons]
    exact ⟨⟨_, hbranchId⟩, ⟨_, hlogic⟩, by simp⟩
  obtain ⟨draft, hgather, hslots⟩ :=
    (EntryDraft.governs room).gather_given hdistinct hempty hgiven
  simp only [EntryDraft.fields, List.forall_mem_cons] at hslots
  rw [Entry.read, opening, hgather, Outcome.ok_bind, EntryDraft.finish_eq_ok]
  obtain ⟨branchId, logic⟩ := draft
  obtain rfl : branchId = _ := hslots.1 _ hbranchId
  obtain rfl : logic = _ := hslots.2.1 _ hlogic
  rfl

/-- An entry is read off an array of two items if both of them are read. -/
theorem Entry.read_of_items {room : Nat} {first second : Outline} {entry : Entry}
    (hfirst : readText first = .ok entry.branchId)
    (hsecond : Node.read room second = .ok entry.logic) :
    Entry.read (room + 1) (.array (.item first (.item second .closed))) = .ok entry := by
  simp only [Entry.read, opening, Items.next, hfirst, hsecond, Outcome.ok_bind,
    Outcome.pure_eq_ok, Items.finish]

/-! ## Mappings -/

namespace MappingDraft

/-- The fields of a mapping. -/
def fields (room : Nat) : List (Field MappingDraft) :=
  [⟨"version", UInt32, version, fun d value => { d with version := value }, readWord⟩,
    ⟨"data", List Entry, entries, fun d value => { d with entries := value },
      readList Entry.read room⟩]

theorem governs (room : Nat) : Governs (take room) (fields room) where
  own := by
    intro f hf s o
    simp only [fields, List.mem_cons, List.not_mem_nil, or_false] at hf
    rcases hf with rfl | rfl <;> rfl
  slot_fill := by
    intro f hf s value
    simp only [fields, List.mem_cons, List.not_mem_nil, or_false] at hf
    rcases hf with rfl | rfl <;> rfl
  slot_other := by
    intro f hf g hg hne s value
    simp only [fields, List.mem_cons, List.not_mem_nil, or_false] at hf hg
    rcases hf with rfl | rfl <;> rcases hg with rfl | rfl <;>
      first | rfl | exact absurd rfl hne
  passes := by
    intro key hkey s o
    simp only [fields, List.forall_mem_cons] at hkey
    unfold take
    split
    · exact absurd rfl hkey.1
    · exact absurd rfl hkey.2.1
    · rfl

theorem finish_eq_ok {draft : MappingDraft} {m : Mapping} :
    draft.finish = .ok m ↔ draft = ⟨some m.version, some m.entries⟩ := by
  obtain ⟨version, entries⟩ := draft
  simp only [finish, Outcome.bind_eq_ok, required_eq_ok, Outcome.pure_eq_ok, Except.ok.injEq,
    mk.injEq]
  constructor
  · rintro ⟨_, rfl, _, rfl, rfl⟩
    exact ⟨rfl, rfl⟩
  · rintro ⟨rfl, rfl⟩
    exact ⟨_, rfl, _, rfl, rfl⟩

end MappingDraft

/-- What a mapping holds was read off its members, or off its two items. -/
theorem Mapping.exists_of_read {room : Nat} {o : Outline} {m : Mapping}
    (h : Mapping.read room o = .ok m) : ∃ left, room = left + 1 ∧
      ((∃ members, o = .object members ∧
          (∃ o', members.Has "version" o' ∧ readWord o' = .ok m.version) ∧
          ∃ o', members.Has "data" o' ∧ readList Entry.read left o' = .ok m.entries) ∨
        ∃ first second, o = .array (.item first (.item second .closed)) ∧
          readWord first = .ok m.version ∧ readList Entry.read left second = .ok m.entries) := by
  cases o with
  | object members =>
    obtain ⟨left, rfl, h⟩ := opening_eq_ok.1 h
    obtain ⟨draft, hgather, hfinish⟩ := Outcome.bind_eq_ok.1 h
    obtain rfl := MappingDraft.finish_eq_ok.1 hfinish
    have hg := MappingDraft.governs left
    refine ⟨left, rfl, .inl ⟨members, rfl, ?_, ?_⟩⟩
    · exact hg.gather_fills (.head _) hgather rfl rfl
    · exact hg.gather_fills (.tail _ (.head _)) hgather rfl rfl
  | array items =>
    obtain ⟨left, rfl, h⟩ := opening_eq_ok.1 h
    obtain ⟨⟨version, tail⟩, hfirst, h⟩ := Outcome.bind_eq_ok.1 h
    obtain ⟨⟨entries, rest⟩, hsecond, h⟩ := Outcome.bind_eq_ok.1 h
    obtain ⟨⟨⟩, hfinish, h⟩ := Outcome.bind_eq_ok.1 h
    obtain rfl := Except.ok.inj h
    obtain ⟨first, rfl, hversion⟩ := Items.next_eq_ok.1 hfirst
    obtain ⟨second, rfl, hentries⟩ := Items.next_eq_ok.1 hsecond
    obtain rfl := Items.finish_eq_ok.1 hfinish
    exact ⟨left, rfl, .inr ⟨first, second, rfl, hversion, hentries⟩⟩
  | _ => exact absurd h Outline.refuse_ne_ok

/-- A mapping is read off members with distinct keys if both of its fields are. -/
theorem Mapping.read_of_members {room : Nat} {members : List (String × JsonTree)} {m : Mapping}
    (hdistinct : (members.map Prod.fst).Nodup)
    (hversion : ∃ tree, ("version", tree) ∈ members ∧ readWord tree.outline = .ok m.version)
    (hentries : ∃ tree, ("data", tree) ∈ members ∧
      readList Entry.read room tree.outline = .ok m.entries) :
    Mapping.read (room + 1) (.object (membersOutline members)) = .ok m := by
  have hempty : ∀ f ∈ MappingDraft.fields room, f.slot MappingDraft.empty = none := by
    simp [MappingDraft.fields, MappingDraft.empty]
  have hgiven : ∀ f ∈ MappingDraft.fields room, ∃ value, Governs.Given members f value := by
    simp only [MappingDraft.fields, List.forall_mem_cons]
    exact ⟨⟨_, hversion⟩, ⟨_, hentries⟩, by simp⟩
  obtain ⟨draft, hgather, hslots⟩ :=
    (MappingDraft.governs room).gather_given hdistinct hempty hgiven
  simp only [MappingDraft.fields, List.forall_mem_cons] at hslots
  rw [Mapping.read, opening, hgather, Outcome.ok_bind, MappingDraft.finish_eq_ok]
  obtain ⟨version, entries⟩ := draft
  obtain rfl : version = _ := hslots.1 _ hversion
  obtain rfl : entries = _ := hslots.2.1 _ hentries
  rfl

/-- A mapping is read off an array of two items if both of them are read. -/
theorem Mapping.read_of_items {room : Nat} {first second : Outline} {m : Mapping}
    (hfirst : readWord first = .ok m.version)
    (hsecond : readList Entry.read room second = .ok m.entries) :
    Mapping.read (room + 1) (.array (.item first (.item second .closed))) = .ok m := by
  simp only [Mapping.read, opening, Items.next, hfirst, hsecond, Outcome.ok_bind,
    Outcome.pure_eq_ok, Items.finish]

end StagedRollout
