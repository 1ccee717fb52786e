/-
# StagedRollout.Proofs.Json.Retained -- values that are the same in two texts

A value of one text is the same as a value of another one when the scalars in both are equal as
values and the containers hold the same: arrays item by item, objects key by key, in whatever order
their members stand (`Outline.Same`). A value that is read to be kept is the same in every text that
the kept value is written to (`same_of_read`), provided that no object repeats a key, because of
several members with one key only the last is kept.
-/
import StagedRollout.Proofs.Json.Kept

namespace StagedRollout

/-! ## What an outline holds -/

/-- The items of an array, as far as they go. -/
def Items.toList : Items → List Outline
  | .item head tail => head :: tail.toList
  | _ => []

/-- The items of a value that is an array. -/
def Outline.items : Outline → List Outline
  | .array items => items.toList
  | _ => []

/-- The keys of members, as far as they go and can be decoded. -/
def Members.keys : Members → List String
  | .member (.ok key) _ tail => key :: tail.keys
  | .member (.error _) _ tail => tail.keys
  | _ => []

/-- The keys of a value that is an object. -/
def Outline.keys : Outline → List String
  | .object members => members.keys
  | _ => []

/-- The outline of a text. -/
def outlineOf (text : String) : Outline := (Outline.ofText text.toList).1

mutual

/-- No object of the value, at any depth, has two members with one key. -/
def Outline.distinctKeys : Outline → Bool
  | .array items => items.distinctKeys
  | .object members => decide members.keys.Nodup && members.distinctKeys
  | _ => true

/-- The same for the items of an array. -/
def Items.distinctKeys : Items → Bool
  | .item head tail => head.distinctKeys && tail.distinctKeys
  | _ => true

/-- The same for the values of members. -/
def Members.distinctKeys : Members → Bool
  | .member _ value tail => value.distinctKeys && tail.distinctKeys
  | _ => true

end

mutual

/-- Two outlines of the same value. -/
def Outline.Same : Outline → Outline → Prop
  | .null, .null => True
  | .bool a, .bool b => a = b
  | .number a, .number b => a.value? = b.value?
  | .text a, .text b => a = b
  | .array items, .array items' => items.Same items'
  | .object members, .object members' =>
    members.FoundIn members' ∧ ∀ key ∈ members'.keys, key ∈ members.keys
  | _, _ => False

/-- As many items, each the same. -/
def Items.Same : Items → Items → Prop
  | .closed, .closed => True
  | .item a tail, .item b tail' => a.Same b ∧ tail.Same tail'
  | _, _ => False

/-- Every member is found among others, under its key and with the same value. -/
def Members.FoundIn : Members → Members → Prop
  | .closed, _ => True
  | .member (.ok key) value tail, found =>
    (∃ value', found.Has key value' ∧ value.Same value') ∧ tail.FoundIn found
  | _, _ => False

end

theorem keys_membersOutline (trees : List (String × JsonTree)) :
    (membersOutline trees).keys = trees.map Prod.fst := by
  induction trees with
  | nil => rfl
  | cons member rest ih => rw [membersOutline, Members.keys, ih, List.map_cons]

/-- Reading a member, from its success. -/
theorem Members.read_member {key : Except Fault String} {value : Outline} {tail : Members}
    {room : Nat} {ms : List (String × Json)}
    (h : (Members.member key value tail).read room = .ok ms) :
    ∃ name json rest, key = .ok name ∧ value.read room = .ok json ∧ tail.read room = .ok rest ∧
      ms = (name, json) :: rest := by
  rw [Members.read] at h
  obtain ⟨name, hkey, h⟩ := Outcome.bind_eq_ok.1 h
  obtain ⟨json, hvalue, h⟩ := Outcome.bind_eq_ok.1 h
  obtain ⟨rest, htail, h⟩ := Outcome.bind_eq_ok.1 h
  exact ⟨name, json, rest, hkey, hvalue, htail, (Except.ok.inj h).symm⟩

/-- Reading members finds all of their keys. -/
theorem Members.keys_of_read {room : Nat} : ∀ {members : Members} {ms : List (String × Json)},
    members.read room = .ok ms → members.keys = ms.map Prod.fst
  | .closed, _, h => by
      rw [Members.read] at h
      rw [← Except.ok.inj h]
      rfl
  | .cut _, _, h => absurd h (by simp [Members.read])
  | .malformed, _, h => absurd h (by simp [Members.read])
  | .member _ _ _, _, h => by
      obtain ⟨name, json, rest, rfl, -, htail, rfl⟩ := read_member h
      rw [Members.keys, keys_of_read htail, List.map_cons]

theorem toList_itemsOutline (trees : List JsonTree) :
    (itemsOutline trees).toList = trees.map JsonTree.outline := by
  induction trees with
  | nil => rfl
  | cons tree rest ih => rw [itemsOutline, Items.toList, ih, List.map_cons]

/-- Whatever stands in an array repeats no key if the array does not. -/
theorem distinctKeys_of_mem {o : Outline} : ∀ {items : Items}, items.distinctKeys = true →
    o ∈ items.toList → o.distinctKeys = true
  | .item head tail, h, hmem => by
      rw [Items.distinctKeys, Bool.and_eq_true] at h
      rcases List.mem_cons.1 hmem with rfl | hmem
      · exact h.1
      · exact distinctKeys_of_mem h.2 hmem
  | .closed, _, hmem => absurd hmem (by simp [Items.toList])
  | .cut _, _, hmem => absurd hmem (by simp [Items.toList])
  | .malformed, _, hmem => absurd hmem (by simp [Items.toList])

theorem distinctKeys_of_has {key : String} {value : Outline} : ∀ {members : Members},
    members.distinctKeys = true → members.Has key value → value.distinctKeys = true
  | _, h, .here => by
      rw [Members.distinctKeys, Bool.and_eq_true] at h
      exact h.1
  | _, h, .there hhas => by
      rw [Members.distinctKeys, Bool.and_eq_true] at h
      exact distinctKeys_of_has h.2 hhas

/-- What is read off a text is read off its outline. -/
theorem read_of_readWhole {α : Type} {read : Nat → Outline → ReadResult α} {text : String} {a : α}
    (h : readWhole read text = .ok a) : read nestingLimit (outlineOf text) = .ok a := by
  rw [outlineOf]
  unfold readWhole at h
  generalize Outline.ofText text.toList = scanned at h ⊢
  obtain ⟨o, rest⟩ := scanned
  obtain ⟨b, hread, h⟩ := Outcome.bind_eq_ok.1 h
  split at h
  · obtain rfl := Except.ok.inj h
    exact hread
  · exact absurd h ReadResult.fault_ne_ok

theorem outlineOf_spelled {tree : JsonTree} {text : String}
    (h : SpellsWhole tree text.toList) : outlineOf text = tree.outline := by
  obtain ⟨rest, hscan, -⟩ := Outline.ofText_spelled h
  rw [outlineOf, hscan]

/-! ## Sorting loses nothing -/

/-- A member of a new key is put to the others. -/
theorem mem_insertMember_iff {key : String} {value : Json} {members : List (String × Json)}
    (hfresh : key ∉ members.map Prod.fst) {member : String × Json} :
    member ∈ insertMember key value members ↔ member = (key, value) ∨ member ∈ members := by
  constructor
  · exact mem_insertMember
  · intro h
    induction members with
    | nil =>
      obtain rfl := h.resolve_right (by simp)
      exact List.mem_singleton_self _
    | cons first rest ih =>
      rw [List.map_cons, List.mem_cons, not_or] at hfresh
      obtain ⟨hne, hrest⟩ := hfresh
      rw [insertMember, if_neg hne]
      split
      · exact List.mem_cons.2 h
      · rcases h with rfl | h
        · exact List.mem_cons_of_mem _ (ih hrest (.inl rfl))
        · rcases List.mem_cons.1 h with rfl | h
          · exact List.mem_cons_self
          · exact List.mem_cons_of_mem _ (ih hrest (.inr h))

/-- Of members with distinct keys none is lost. -/
theorem mem_sortMembers_iff {members : List (String × Json)}
    (hdistinct : (members.map Prod.fst).Nodup) {member : String × Json} :
    member ∈ sortMembers members ↔ member ∈ members := by
  induction members using List.reverseRecOn with
  | nil => exact Iff.rfl
  | append_singleton front last ih =>
    rw [List.map_append, List.nodup_append] at hdistinct
    obtain ⟨hfront, -, hdisjoint⟩ := hdistinct
    have hsorted :
        sortMembers (front ++ [last]) = insertMember last.1 last.2 (sortMembers front) := by
      rw [sortMembers, List.foldl_append]
      rfl
    have hfresh : last.1 ∉ (sortMembers front).map Prod.fst := by
      intro hmem
      obtain ⟨other, hother, hkey⟩ := List.mem_map.1 hmem
      have hother := List.mem_map_of_mem (f := Prod.fst) (mem_sortMembers other hother)
      exact hdisjoint _ hother _ (by simp) hkey
    rw [hsorted, mem_insertMember_iff hfresh, ih hfront, List.mem_append, List.mem_singleton,
      or_comm]

/-! ## Values that are kept -/

/-- Each member has a tree of its own among the trees of all members. -/
theorem exists_tree_of_denotesMembers {trees : List (String × JsonTree)}
    {members : List (String × Json)} (h : DenotesMembers trees members) {member : String × Json}
    (hmem : member ∈ members) : ∃ tree, (member.1, tree) ∈ trees ∧ Denotes tree member.2 := by
  induction members generalizing trees with
  | nil => exact absurd hmem (by simp)
  | cons first rest ih =>
    obtain _ | ⟨hfirst, hrest⟩ := h
    rcases List.mem_cons.1 hmem with rfl | hmem
    · exact ⟨_, List.mem_cons_self, hfirst⟩
    · obtain ⟨tree, htree, hdenotes⟩ := ih hrest hmem
      exact ⟨tree, List.mem_cons_of_mem _ htree, hdenotes⟩

theorem keys_of_denotesMembers {trees : List (String × JsonTree)}
    {members : List (String × Json)} (h : DenotesMembers trees members) :
    trees.map Prod.fst = members.map Prod.fst := by
  induction members generalizing trees with
  | nil =>
    cases h
    rfl
  | cons first rest ih =>
    obtain _ | ⟨_, hrest⟩ := h
    rw [List.map_cons, List.map_cons, ih hrest]

/-- Members that were read have all the keys of an object that spells out none but them. -/
theorem mem_keys_of_spelled {members : Members} {room : Nat} {ms spelled : List (String × Json)}
    {trees : List (String × JsonTree)} (hread : members.read room = .ok ms)
    (hdenotes : DenotesMembers trees spelled) (h : ∀ member ∈ spelled, member ∈ ms) :
    ∀ key ∈ (membersOutline trees).keys, key ∈ members.keys := by
  intro key hkey
  rw [keys_membersOutline, keys_of_denotesMembers hdenotes] at hkey
  obtain ⟨member, hmem, rfl⟩ := List.mem_map.1 hkey
  rw [Members.keys_of_read hread]
  exact List.mem_map_of_mem (h member hmem)

mutual

/-- **A value that is read to be kept is the same wherever it is written.** -/
theorem same_of_read : ∀ (o : Outline) {room : Nat} {json : Json} {tree : JsonTree},
    o.distinctKeys = true → o.read room = .ok json → Denotes tree json → o.Same tree.outline
  | .null, _, _, _, _, h, hdenotes => by
      rw [Outline.read] at h
      obtain rfl := Except.ok.inj h
      cases hdenotes
      trivial
  | .bool value, _, _, _, _, h, hdenotes => by
      rw [Outline.read] at h
      obtain rfl := Except.ok.inj h
      cases hdenotes
      exact rfl
  | .number numeral, _, _, _, _, h, hdenotes => by
      rw [Outline.read] at h
      split at h
      · next json hvalue =>
        obtain rfl := Except.ok.inj h
        obtain ⟨i, -, rfl⟩ | ⟨x, rfl, -⟩ := Numeral.value?_eq_some hvalue
        · obtain _ | _ | hint := hdenotes
          exact hvalue.trans (Numeral.value?_of_toInt? hint).symm
        · obtain _ | _ | _ | ⟨hint, hread, hfinite⟩ := hdenotes
          exact hvalue.trans (Numeral.value?_of_float hint hread hfinite).symm
      · exact absurd h (by simp)
  | .text content, _, _, _, _, h, hdenotes => by
      rw [Outline.read] at h
      obtain ⟨string, rfl, rfl⟩ := Outcome.map_eq_ok.1 h
      cases hdenotes
      exact rfl
  | .array items, 0, _, _, _, h, _ => absurd h (by simp [Outline.read])
  | .array items, room + 1, _, _, hdistinct, h, hdenotes => by
      rw [Outline.read] at h
      obtain ⟨jsons, hitems, rfl⟩ := Outcome.map_eq_ok.1 h
      obtain _ | _ | _ | _ | _ | ⟨hdenotes⟩ | _ := hdenotes
      exact same_of_readItems items hdistinct hitems hdenotes
  | .object members, 0, _, _, _, h, _ => absurd h (by simp [Outline.read])
  | .object members, room + 1, _, _, hdistinct, h, hdenotes => by
      rw [Outline.read] at h
      obtain ⟨ms, hmembers, rfl⟩ := Outcome.map_eq_ok.1 h
      obtain _ | _ | _ | _ | _ | _ | ⟨hdenotes⟩ := hdenotes
      rw [Outline.distinctKeys, Bool.and_eq_true, decide_eq_true_eq] at hdistinct
      obtain ⟨hkeys, hvalues⟩ := hdistinct
      rw [Members.keys_of_read hmembers] at hkeys
      refine ⟨foundIn_of_readMembers members hvalues hmembers ?_,
        mem_keys_of_spelled hmembers hdenotes mem_sortMembers⟩
      intro member hmem
      exact exists_tree_of_denotesMembers hdenotes ((mem_sortMembers_iff hkeys).2 hmem)
  | .missing, _, _, _, _, h, _ => absurd h (by simp [Outline.read])
  | .brokenText _ _, _, _, _, _, h, _ => absurd h (by simp [Outline.read])
  | .broken _ _, _, _, _, _, h, _ => absurd h (by simp [Outline.read])

theorem same_of_readItems : ∀ (items : Items) {room : Nat} {jsons : List Json}
    {trees : List JsonTree}, items.distinctKeys = true → items.read room = .ok jsons →
    DenotesItems trees jsons → items.Same (itemsOutline trees)
  | .closed, _, _, _, _, h, hdenotes => by
      rw [Items.read] at h
      obtain rfl := Except.ok.inj h
      cases hdenotes
      trivial
  | .cut _, _, _, _, _, h, _ => absurd h (by simp [Items.read])
  | .malformed, _, _, _, _, h, _ => absurd h (by simp [Items.read])
  | .item head tail, _, _, _, hdistinct, h, hdenotes => by
      rw [Items.read] at h
      obtain ⟨json, hhead, h⟩ := Outcome.bind_eq_ok.1 h
      obtain ⟨rest, htail, h⟩ := Outcome.bind_eq_ok.1 h
      obtain rfl := Except.ok.inj h
      obtain _ | ⟨hfirst, hrest⟩ := hdenotes
      rw [Items.distinctKeys, Bool.and_eq_true] at hdistinct
      exact ⟨same_of_read head hdistinct.1 hhead hfirst,
        same_of_readItems tail hdistinct.2 htail hrest⟩

/-- Members that are read are found in every object that spells all of them out. -/
theorem foundIn_of_readMembers : ∀ (members : Members) {room : Nat} {ms : List (String × Json)}
    {trees : List (String × JsonTree)}, members.distinctKeys = true → members.read room = .ok ms →
    (∀ member ∈ ms, ∃ tree, (member.1, tree) ∈ trees ∧ Denotes tree member.2) →
    members.FoundIn (membersOutline trees)
  | .closed, _, _, _, _, _, _ => trivial
  | .cut _, _, _, _, _, h, _ => absurd h (by simp [Members.read])
  | .malformed, _, _, _, _, h, _ => absurd h (by simp [Members.read])
  | .member _ value tail, _, _, _, hdistinct, h, hspelled => by
      obtain ⟨name, json, rest, rfl, hvalue, htail, rfl⟩ := Members.read_member h
      rw [Members.distinctKeys, Bool.and_eq_true] at hdistinct
      obtain ⟨⟨tree, hmem, hdenotes⟩, hspelled⟩ := List.forall_mem_cons.1 hspelled
      refine ⟨⟨tree.outline, ?_, same_of_read value hdistinct.1 hvalue hdenotes⟩, ?_⟩
      · exact has_membersOutline.2 ⟨tree, hmem, rfl⟩
      · exact foundIn_of_readMembers tail hdistinct.2 htail hspelled

end

end StagedRollout
