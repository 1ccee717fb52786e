/-
# StagedRollout.Proofs.Store.Retention -- what a write keeps of the file

A write makes a whole new text of what was read of the old one. Of a branch everything was read,
whatever its members are, and so everything is there again (`Branch.same_of_read`). Of a channel the
four fields that it is known to have were read, and these are there again, but for the mapping of
the one channel that was given another (`ChannelFile.execute_retains`). Any other member of a
channel is passed over by the reader, and the new text has it nowhere.
-/
import StagedRollout.Proofs.Json.Retained
import StagedRollout.Proofs.Store.Survival

namespace StagedRollout

/-! ## Branches -/

namespace BranchDraft

/-- The members that have been read, each as a value. -/
def held (draft : BranchDraft) : List (String × Json) :=
  (draft.id.map fun id => ("id", .text id)).toList ++
    ((draft.name.map fun name => ("name", .text name)).toList ++ draft.extra)

@[simp]
theorem held_empty : empty.held = [] := rfl

/-- A step over a member with a new key reads its value and holds it. -/
theorem mem_held_of_take {room : Nat} {draft draft' : BranchDraft} {key : String} {value : Outline}
    (h : take room draft key value = .ok draft') (hfresh : key ∉ draft.held.map Prod.fst) :
    ∃ json, value.read room = .ok json ∧
      ∀ member, member ∈ draft'.held ↔ member = (key, json) ∨ member ∈ draft.held := by
  by_cases hid : key = "id"
  · subst hid
    obtain ⟨slot, hslot, h⟩ := Outcome.bind_eq_ok.1 h
    obtain rfl := Except.ok.inj h
    obtain ⟨hnone, id, hread, rfl⟩ := readOnce_eq_ok.1 hslot
    obtain rfl := readText_eq_ok.1 hread
    refine ⟨.text id, by rw [Outline.read, Outcome.map_ok], ?_⟩
    intro member
    simp [held, hnone]
  · by_cases hname : key = "name"
    · subst hname
      obtain ⟨slot, hslot, h⟩ := Outcome.bind_eq_ok.1 h
      obtain rfl := Except.ok.inj h
      obtain ⟨hnone, name, hread, rfl⟩ := readOnce_eq_ok.1 hslot
      obtain rfl := readText_eq_ok.1 hread
      refine ⟨.text name, by rw [Outline.read, Outcome.map_ok], ?_⟩
      intro member
      simp [held, hnone, or_left_comm]
    · rw [take_unknown hid hname] at h
      obtain ⟨json, hread, h⟩ := Outcome.bind_eq_ok.1 h
      obtain rfl := Except.ok.inj h
      refine ⟨json, ReadResult.ofText_eq_ok.1 hread, ?_⟩
      intro member
      have hextra : key ∉ draft.extra.map Prod.fst := by
        intro hmem
        apply hfresh
        simp only [held, List.map_append, List.mem_append]
        exact .inr (.inr hmem)
      simp only [held, List.mem_append, mem_insertMember_iff hextra]
      tauto

/-- **A walk over members with distinct keys reads every value and holds all of them.** -/
theorem mem_held_of_gather {room : Nat} : ∀ {members : Members} {draft draft' : BranchDraft},
    members.gather (take room) draft = .ok draft' → members.keys.Nodup →
    (∀ key ∈ members.keys, key ∉ draft.held.map Prod.fst) →
    ∃ ms, members.read room = .ok ms ∧
      ∀ member, member ∈ draft'.held ↔ member ∈ ms ∨ member ∈ draft.held
  | .closed, draft, draft', h, _, _ => by
      obtain rfl := Except.ok.inj h
      exact ⟨[], by rw [Members.read], by simp⟩
  | .cut _, _, _, h, _, _ => absurd h ReadResult.fault_ne_ok
  | .malformed, _, _, h, _, _ => absurd h ReadResult.fault_ne_ok
  | .member key value tail, draft, draft', h, hdistinct, hfresh => by
      obtain ⟨name, next, rfl, htake, htail⟩ := Members.gather_member h
      rw [Members.keys, List.nodup_cons] at hdistinct
      obtain ⟨hnot, hdistinct⟩ := hdistinct
      rw [Members.keys, List.forall_mem_cons] at hfresh
      obtain ⟨hname, hfresh⟩ := hfresh
      obtain ⟨json, hread, hheld⟩ := mem_held_of_take htake hname
      have hfresh : ∀ key ∈ tail.keys, key ∉ next.held.map Prod.fst := by
        intro key hkey hmem
        obtain ⟨member, hmember, rfl⟩ := List.mem_map.1 hmem
        obtain rfl | hold := (hheld member).1 hmember
        · exact hnot hkey
        · exact hfresh _ hkey (List.mem_map_of_mem hold)
      obtain ⟨ms, hreads, hheld'⟩ := mem_held_of_gather htail hdistinct hfresh
      refine ⟨(name, json) :: ms, ?_, ?_⟩
      · rw [Members.read, Outcome.ok_bind, hread, Outcome.ok_bind, hreads]
        rfl
      · intro member
        rw [hheld' member, hheld member, List.mem_cons]
        tauto

end BranchDraft

/-- **A branch that was read is the same wherever it is written**, with all of its members. -/
theorem Branch.same_of_read {room : Nat} {o : Outline} {b : Branch} {tree : JsonTree}
    (hdistinct : o.distinctKeys = true) (h : Branch.read room o = .ok b)
    (hdenotes : Denotes tree b.toJson) : o.Same tree.outline := by
  cases o with
  | object members =>
    obtain ⟨left, rfl, h⟩ := opening_eq_ok.1 h
    obtain ⟨draft, hgather, hfinish⟩ := Outcome.bind_eq_ok.1 h
    obtain rfl := BranchDraft.finish_eq_ok.1 hfinish
    obtain _ | _ | _ | _ | _ | _ | ⟨hdenotes⟩ := hdenotes
    rw [Outline.distinctKeys, Bool.and_eq_true, decide_eq_true_eq] at hdistinct
    obtain ⟨hkeys, hvalues⟩ := hdistinct
    obtain ⟨ms, hread, hheld⟩ := BranchDraft.mem_held_of_gather hgather hkeys (by simp)
    have hmembers : ∀ member, member ∈ b.members ↔ member ∈ ms := by
      intro member
      show member ∈ BranchDraft.held ⟨some b.id, some b.name, b.extra⟩ ↔ member ∈ ms
      simp [hheld member]
    refine ⟨foundIn_of_readMembers members hvalues hread ?_,
      mem_keys_of_spelled hread hdenotes fun member => (hmembers member).1⟩
    intro member hmem
    exact exists_tree_of_denotesMembers hdenotes ((hmembers member).2 hmem)
  | _ => exact absurd h Outline.refuse_ne_ok

/-- The branches of a list are the same, one by one. -/
theorem same_of_readBranches {room : Nat} : ∀ {items : Items} {branches : List Branch}
    {trees : List JsonTree}, items.distinctKeys = true →
    items.readAll (Branch.read room) = .ok branches →
    DenotesItems trees (branches.map Branch.toJson) → items.Same (itemsOutline trees)
  | .closed, _, _, _, h, hdenotes => by
      obtain rfl := Except.ok.inj h
      cases hdenotes
      trivial
  | .cut _, _, _, _, h, _ => absurd h ReadResult.fault_ne_ok
  | .malformed, _, _, _, h, _ => absurd h ReadResult.fault_ne_ok
  | .item head tail, _, _, hdistinct, h, hdenotes => by
      obtain ⟨b, hhead, h⟩ := Outcome.bind_eq_ok.1 h
      obtain ⟨rest, htail, h⟩ := Outcome.bind_eq_ok.1 h
      obtain rfl := Except.ok.inj h
      obtain _ | ⟨hfirst, hrest⟩ := hdenotes
      rw [Items.distinctKeys, Bool.and_eq_true] at hdistinct
      exact ⟨Branch.same_of_read hdistinct.1 hhead hfirst,
        same_of_readBranches hdistinct.2 htail hrest⟩

/-! ## Channels -/

/-- The fields that the record of a channel is known to have, in the order of the array form. -/
def channelFields : List String := ["id", "name", "branchMapping", "branches"]

/-- The record of a channel has a field with a value: in the object form as a member, in the array
form at the place of the field. -/
def Outline.Gives : Outline → String → Outline → Prop
  | .object members, key, value => members.Has key value
  | .array items, key, value =>
    key ∈ channelFields ∧ items.toList[channelFields.idxOf key]? = some value
  | _, _, _ => False

namespace Channel

/-- The members of a channel's record as it is written. -/
def members (c : Channel) : List (String × Json) :=
  [("id", .text c.id), ("name", .text c.name), ("branchMapping", .text c.mappingText),
    ("branches", .array (c.branches.map Branch.toJson))]

/-- What a channel has in a field was read there. -/
inductive ReadFrom (room : Nat) (c : Channel) : String → Outline → Prop
  | id {value : Outline} (h : readText value = .ok c.id) : ReadFrom room c "id" value
  | name {value : Outline} (h : readText value = .ok c.name) : ReadFrom room c "name" value
  | mapping {value : Outline} (h : readText value = .ok c.mappingText) :
      ReadFrom room c "branchMapping" value
  | branches {value : Outline} (h : readList Branch.read room value = .ok c.branches) :
      ReadFrom room c "branches" value

/-- The items of a channel's record in its array form, of which the last may be missing. -/
theorem items_of_readArray {room : Nat} {items : Items} {c : Channel}
    (h : Channel.read (room + 1) (.array items) = .ok c) :
    ∃ id name mapping rest, items = .item id (.item name (.item mapping rest)) ∧
      readText id = .ok c.id ∧ readText name = .ok c.name ∧
      readText mapping = .ok c.mappingText ∧
      (rest = .closed ∧ c.branches = [] ∨
        ∃ branches, rest = .item branches .closed ∧
          readList Branch.read room branches = .ok c.branches) := by
  rw [Channel.read, opening] at h
  obtain ⟨⟨_, afterId⟩, hnext, hthen⟩ := Outcome.bind_eq_ok.1 h
  obtain ⟨id, hitems, hid⟩ := Items.next_eq_ok.1 hnext
  obtain ⟨⟨_, afterName⟩, hnext, hthen⟩ := Outcome.bind_eq_ok.1 hthen
  obtain ⟨name, hafterId, hname⟩ := Items.next_eq_ok.1 hnext
  obtain ⟨⟨_, rest⟩, hnext, hthen⟩ := Outcome.bind_eq_ok.1 hthen
  obtain ⟨mapping, hafterName, hmapping⟩ := Items.next_eq_ok.1 hnext
  refine ⟨id, name, mapping, rest, by rw [hitems, hafterId, hafterName], ?_⟩
  dsimp only at hthen
  split at hthen
  · obtain rfl := Except.ok.inj hthen
    exact ⟨hid, hname, hmapping, .inl ⟨rfl, rfl⟩⟩
  · obtain ⟨⟨_, afterBranches⟩, hnext, hthen⟩ := Outcome.bind_eq_ok.1 hthen
    obtain ⟨branches, hrest, hbranches⟩ := Items.next_eq_ok.1 hnext
    obtain ⟨⟨⟩, hfinish, hthen⟩ := Outcome.bind_eq_ok.1 hthen
    obtain rfl := Items.finish_eq_ok.1 hfinish
    obtain rfl := Except.ok.inj hthen
    exact ⟨hid, hname, hmapping, .inr ⟨branches, hrest, hbranches⟩⟩

/-- Every known field of a channel's record was read, in either form. -/
theorem readFrom_of_gives {room : Nat} {o value : Outline} {c : Channel} {key : String}
    (h : Channel.read (room + 1) o = .ok c) (hkey : key ∈ channelFields)
    (hgives : o.Gives key value) : c.ReadFrom room key value := by
  cases o with
  | object members =>
    rw [Channel.read, opening] at h
    obtain ⟨draft, hgather, hfinish⟩ := Outcome.bind_eq_ok.1 h
    obtain ⟨hid, hname, hmapping, hbranches⟩ := ChannelDraft.finish_eq_ok.1 hfinish
    have hgoverns := ChannelDraft.governs room
    simp only [channelFields, List.mem_cons, List.not_mem_nil, or_false] at hkey
    obtain rfl | rfl | rfl | rfl := hkey
    · obtain ⟨id, hread, hslot⟩ := hgoverns.gather_reads (.head _) hgather hgives
      obtain rfl : id = c.id := Option.some.inj (hslot.symm.trans hid)
      exact .id hread
    · obtain ⟨name, hread, hslot⟩ := hgoverns.gather_reads (.tail _ (.head _)) hgather hgives
      obtain rfl : name = c.name := Option.some.inj (hslot.symm.trans hname)
      exact .name hread
    · obtain ⟨text, hread, hslot⟩ :=
        hgoverns.gather_reads (.tail _ (.tail _ (.head _))) hgather hgives
      obtain rfl : text = c.mappingText := Option.some.inj (hslot.symm.trans hmapping)
      exact .mapping hread
    · obtain ⟨branches, hread, hslot⟩ :=
        hgoverns.gather_reads (.tail _ (.tail _ (.tail _ (.head _)))) hgather hgives
      have hslot : draft.branches = some branches := hslot
      rw [hslot] at hbranches
      obtain rfl : branches = c.branches := hbranches
      exact .branches hread
  | array items =>
    obtain ⟨_, hplace⟩ := hgives
    obtain ⟨idItem, nameItem, mappingItem, rest, rfl, hid, hname, hmapping, hrest⟩ :=
      items_of_readArray h
    simp only [channelFields, List.mem_cons, List.not_mem_nil, or_false] at hkey
    obtain rfl | rfl | rfl | rfl := hkey
    · obtain rfl := Option.some.inj hplace
      exact .id hid
    · obtain rfl := Option.some.inj hplace
      exact .name hname
    · obtain rfl := Option.some.inj hplace
      exact .mapping hmapping
    · obtain ⟨rfl, -⟩ | ⟨branchesItem, rfl, hbranches⟩ := hrest
      · exact absurd hplace (by simp [Items.toList, channelFields])
      · obtain rfl := Option.some.inj hplace
        exact .branches hbranches
  | _ => exact absurd h Outline.refuse_ne_ok

/-- A field that was read is the same wherever the member of its name is written. -/
theorem ReadFrom.exists_member {room : Nat} {c : Channel} {key : String} {value : Outline}
    (h : c.ReadFrom room key value) (hdistinct : value.distinctKeys = true) :
    ∃ json, (key, json) ∈ c.members ∧ ∀ tree, Denotes tree json → value.Same tree.outline := by
  cases h with
  | id h =>
    obtain rfl := readText_eq_ok.1 h
    refine ⟨.text c.id, by simp [members], ?_⟩
    rintro _ ⟨⟩
    exact rfl
  | name h =>
    obtain rfl := readText_eq_ok.1 h
    refine ⟨.text c.name, by simp [members], ?_⟩
    rintro _ ⟨⟩
    exact rfl
  | mapping h =>
    obtain rfl := readText_eq_ok.1 h
    refine ⟨.text c.mappingText, by simp [members], ?_⟩
    rintro _ ⟨⟩
    exact rfl
  | branches h =>
    obtain ⟨items, left, rfl, rfl, hitems⟩ := readList_eq_ok.1 h
    refine ⟨.array (c.branches.map Branch.toJson), by simp [members], ?_⟩
    intro tree hdenotes
    obtain _ | _ | _ | _ | _ | ⟨hdenotes⟩ | _ := hdenotes
    exact same_of_readBranches hdistinct hitems hdenotes

end Channel

/-- The fields of a channel's record that a new record holds again, with the same values. The new
record has no members but the known fields. -/
structure RecordKept (fields : List String) (old new : Outline) : Prop where
  kept : ∀ key ∈ fields, ∀ value, old.Gives key value →
    ∃ value', new.Gives key value' ∧ value.Same value'
  only : ∀ key ∈ new.keys, key ∈ channelFields

theorem distinctKeys_of_gives {o value : Outline} {key : String} (h : o.distinctKeys = true)
    (hgives : o.Gives key value) : value.distinctKeys = true := by
  cases o with
  | object members =>
    rw [Outline.distinctKeys, Bool.and_eq_true] at h
    exact distinctKeys_of_has h.2 hgives
  | array items => exact distinctKeys_of_mem h (List.mem_of_getElem? hgives.2)
  | _ => exact hgives.elim

/-- The record of a channel that was read holds the fields that the written channel has the same
members for. -/
theorem Channel.recordKept {room : Nat} {o : Outline} {c c' : Channel} {tree : JsonTree}
    {fields : List String} (hdistinct : o.distinctKeys = true)
    (h : Channel.read (room + 1) o = .ok c) (hdenotes : Denotes tree c'.toJson)
    (hfields : ∀ key ∈ fields, key ∈ channelFields ∧
      ∀ json, (key, json) ∈ c.members → (key, json) ∈ c'.members) :
    RecordKept fields o tree.outline := by
  have hdenotes : Denotes tree (.object c'.members) := hdenotes
  obtain _ | _ | _ | _ | _ | _ | ⟨hdenotes⟩ := hdenotes
  constructor
  · intro key hkey value hgives
    obtain ⟨hknown, hmembers⟩ := hfields key hkey
    have hread := readFrom_of_gives h hknown hgives
    obtain ⟨json, hmem, hsame⟩ := hread.exists_member (distinctKeys_of_gives hdistinct hgives)
    obtain ⟨tree, htree, hjson⟩ := exists_tree_of_denotesMembers hdenotes (hmembers json hmem)
    exact ⟨tree.outline, has_membersOutline.2 ⟨tree, htree, rfl⟩, hsame tree hjson⟩
  · intro key hkey
    have hkey : key ∈ (membersOutline _).keys := hkey
    rw [keys_membersOutline, keys_of_denotesMembers hdenotes] at hkey
    exact hkey

/-! ## Files -/

/-- What one outline of a channel file retains of another: the records in their order, each with all
its known fields, but for the mapping of one record. -/
structure Retains (updated : Nat) (old new : Outline) : Prop where
  length : new.items.length = old.items.length
  records : ∀ (i : Nat) (record record' : Outline), old.items[i]? = some record →
    new.items[i]? = some record' →
    RecordKept (if i = updated then channelFields.erase "branchMapping" else channelFields)
      record record'

/-- Every record of the new outline has one to retain. -/
theorem Retains.exists_old {updated : Nat} {old new record' : Outline}
    (h : Retains updated old new) (hmem : record' ∈ new.items) :
    ∃ record fields, RecordKept fields record record' := by
  obtain ⟨i, hi, hnew⟩ := List.mem_iff_getElem.1 hmem
  rw [h.length] at hi
  exact ⟨old.items[i], _, h.records i _ _ (List.getElem?_eq_getElem hi)
    (hnew ▸ List.getElem?_eq_getElem _)⟩

theorem exists_of_forall₂ {α β : Type} {R : α → β → Prop} {as : List α} {bs : List β}
    (h : List.Forall₂ R as bs) {i : Nat} {a : α} (ha : as[i]? = some a) :
    ∃ b, bs[i]? = some b ∧ R a b := by
  induction h generalizing i with
  | nil => exact absurd ha (by simp)
  | cons hfirst _ ih =>
    cases i with
    | zero =>
      obtain rfl := Option.some.inj ha
      exact ⟨_, rfl, hfirst⟩
    | succ i => exact ih ha

theorem Items.forall₂_of_readAll {α : Type} {read : Outline → ReadResult α} :
    ∀ {items : Items} {as : List α}, items.readAll read = .ok as →
      List.Forall₂ (fun o a => read o = .ok a) items.toList as
  | .closed, as, h => by
      obtain rfl := Except.ok.inj h
      exact .nil
  | .cut _, as, h => absurd h ReadResult.fault_ne_ok
  | .malformed, as, h => absurd h ReadResult.fault_ne_ok
  | .item head tail, as, h => by
      obtain ⟨a, hhead, h⟩ := Outcome.bind_eq_ok.1 h
      obtain ⟨rest, htail, h⟩ := Outcome.bind_eq_ok.1 h
      obtain rfl := Except.ok.inj h
      exact .cons hhead (forall₂_of_readAll htail)

theorem forall₂_of_denotesItems {α : Type} {toJson : α → Json} {trees : List JsonTree}
    {as : List α} (h : DenotesItems trees (as.map toJson)) :
    List.Forall₂ (fun tree a => Denotes tree (toJson a)) trees as := by
  induction as generalizing trees with
  | nil =>
    cases h
    exact .nil
  | cons a as ih =>
    obtain _ | ⟨hfirst, hrest⟩ := h
    exact .cons hfirst (ih hrest)

/-- The channels of a text stand in its records. -/
theorem records_of_readChannels {text : String} {channels : List Channel}
    (h : readChannels text = .ok channels) : ∃ room,
      List.Forall₂ (fun record c => Channel.read (room + 1) record = .ok c)
        (outlineOf text).items channels := by
  obtain ⟨items, left, hitems, hroom, hread⟩ := readList_eq_ok.1 (read_of_readWhole h)
  obtain rfl : left = 125 + 1 := (Nat.succ.inj hroom).symm
  refine ⟨125, ?_⟩
  rw [hitems]
  exact Items.forall₂_of_readAll hread

/-- Written channels stand in the records of their text. -/
theorem records_channelsText {room : Nat} {channels : List Channel}
    (h : ∀ c ∈ channels, c.Stored room) :
    List.Forall₂ (fun record c => ∃ tree : JsonTree, record = tree.outline ∧ Denotes tree c.toJson)
      (outlineOf (channelsText channels)).items channels := by
  have hwritable : (Json.array (channels.map Channel.toJson)).Writable := by
    apply writableItems_of_forall
    intro item hitem
    obtain ⟨c, hmem, rfl⟩ := List.mem_map.1 hitem
    exact (h c hmem).writable
  obtain ⟨tree, hspelled, hdenotes⟩ := spellsWhole_indented hwritable
  obtain _ | _ | _ | _ | _ | ⟨hitems⟩ | _ := hdenotes
  rw [channelsText, outlineOf_spelled hspelled]
  show List.Forall₂ _ (itemsOutline _).toList channels
  rw [toList_itemsOutline, List.forall₂_map_left_iff]
  apply (forall₂_of_denotesItems hitems).imp
  intro tree c hdenotes
  exact ⟨tree, rfl, hdenotes⟩

theorem distinctKeys_of_mem_items {o record : Outline} (h : o.distinctKeys = true)
    (hmem : record ∈ o.items) : record.distinctKeys = true := by
  cases o with
  | array items => exact distinctKeys_of_mem h hmem
  | _ => exact absurd hmem (by simp [Outline.items])

/-- Replacing a mapping leaves the branches of all channels as they are. -/
theorem stored_replaced {room : Nat} {front behind : List Channel} {target : Channel}
    (mappingText : String) (h : ∀ c ∈ front ++ target :: behind, c.Stored room) :
    ∀ c ∈ front ++ { target with mappingText } :: behind, c.Stored room := by
  intro c hc
  obtain hc | rfl | hc := by simpa using hc
  · exact h c (by simp [hc])
  · exact h target (by simp)
  · exact h c (by simp [hc])

/-! ## Commands -/

namespace ChannelFile

/-- A channel with another mapping has the same members, but for that one. -/
theorem mem_members_of_ne {c : Channel} {mappingText key : String} {json : Json}
    (hkey : key ≠ "branchMapping") (h : (key, json) ∈ c.members) :
    (key, json) ∈ { c with mappingText }.members := by
  simp only [Channel.members, List.mem_cons, Prod.mk.injEq, hkey, false_and, false_or] at h ⊢
  exact h

/-- The text that is written after the mapping of a channel was replaced holds all other fields of
all channels as the text did that they were read from. -/
theorem retains_replaced {text mappingText : String} {front behind : List Channel}
    {target : Channel} (hdistinct : (outlineOf text).distinctKeys = true)
    (hload : load (some text) = .ok (front ++ target :: behind)) :
    Retains front.length (outlineOf text)
      (outlineOf (channelsText (front ++ { target with mappingText } :: behind))) := by
  obtain ⟨_, ⟨⟩, hread⟩ := load_eq_ok.1 hload
  obtain ⟨room, hrecords⟩ := records_of_readChannels hread
  have hstored := stored_of_readChannels hread
  have hwritten := records_channelsText (stored_replaced mappingText hstored)
  have hset : front ++ { target with mappingText } :: behind =
      (front ++ target :: behind).set front.length { target with mappingText } := by
    simp
  constructor
  · rw [hwritten.length_eq, hrecords.length_eq, List.length_append, List.length_append,
      List.length_cons, List.length_cons]
  · intro i record record' hold hnew
    obtain ⟨c, hc, hchannel⟩ := exists_of_forall₂ hrecords hold
    obtain ⟨c', hc', tree, rfl, hdenotes⟩ := exists_of_forall₂ hwritten hnew
    have hrecord := distinctKeys_of_mem_items hdistinct (List.mem_of_getElem? hold)
    apply Channel.recordKept hrecord hchannel hdenotes
    rw [hset, List.getElem?_set] at hc'
    by_cases hi : i = front.length
    · subst hi
      rw [List.getElem?_append_right (Nat.le_refl _), Nat.sub_self] at hc
      obtain rfl : target = c := Option.some.inj hc
      have hlength : front.length < (front ++ target :: behind).length := by simp
      rw [if_pos rfl, if_pos hlength] at hc'
      obtain rfl := Option.some.inj hc'
      rw [if_pos rfl]
      intro key hkey
      have hne : key ≠ "branchMapping" := by
        rintro rfl
        exact absurd hkey (by decide)
      exact ⟨List.mem_of_mem_erase hkey, fun _ => mem_members_of_ne hne⟩
    · rw [if_neg (Ne.symm hi)] at hc'
      obtain rfl : c = c' := Option.some.inj (hc.symm.trans hc')
      rw [if_neg hi]
      intro key hkey
      exact ⟨hkey, fun _ hmem => hmem⟩

/-- An edit that is written retains all but the mapping of the first channel of the fetched id. -/
theorem edit_retains {text : String} {invocation : Invocation} {e : Edit} {result : CommandResult}
    (hdistinct : (outlineOf text).distinctKeys = true) (hcommand : invocation.command = .edit e)
    (hwrite : invocation.write = true) (h : execute (some text) invocation = .ok result) :
    ∃ c front target behind text', fetch (some text) invocation.channel = .ok c ∧
      load (some text) = .ok (front ++ target :: behind) ∧ (∀ d ∈ front, d.id ≠ c.id) ∧
      target.id = c.id ∧ result.file = some text' ∧
      Retains front.length (outlineOf text) (outlineOf text') := by
  obtain ⟨c, hfetch, hexecuted⟩ := execute_eq_ok h
  cases hexecuted with
  | reported hrespond =>
    rw [hcommand] at hrespond
    obtain ⟨update, hchange⟩ := Channel.respond_edit hrespond
    exact absurd hchange (by simp)
  | proposed _ hnot => exact absurd (hwrite.symm.trans hnot) (by simp)
  | @written mappingText front target behind _ _ hload hfront htarget =>
    refine ⟨c, front, target, behind, _, hfetch, hload, hfront, htarget, rfl, ?_⟩
    exact retains_replaced hdistinct hload

/-- **A command that writes loses nothing that the program knows of.** Of a text in which no object
repeats a key, the new text holds every record again in its place, and of each record the id, the
name, the mapping and the branches with all of their members, whatever they are, except for the
mapping of the one channel that the update is for. Members of channels under any other name are in
no record of the new text. A command that edits nothing leaves the text alone. -/
theorem execute_retains {text : String} {invocation : Invocation} {result : CommandResult}
    (hdistinct : (outlineOf text).distinctKeys = true) (hwrite : invocation.write = true)
    (h : execute (some text) invocation = .ok result) :
    ((∀ e, invocation.command ≠ .edit e) ∧ result.file = some text) ∨
      ∃ c front target behind text', fetch (some text) invocation.channel = .ok c ∧
        load (some text) = .ok (front ++ target :: behind) ∧ (∀ d ∈ front, d.id ≠ c.id) ∧
        target.id = c.id ∧ result.file = some text' ∧
        Retains front.length (outlineOf text) (outlineOf text') := by
  by_cases hedit : ∃ e, invocation.command = .edit e
  · obtain ⟨e, hcommand⟩ := hedit
    exact .inr (edit_retains hdistinct hcommand hwrite h)
  · refine .inl ⟨fun e hcommand => hedit ⟨e, hcommand⟩, ?_⟩
    obtain ⟨c, -, hexecuted⟩ := execute_eq_ok h
    cases hexecuted with
    | reported => rfl
    | proposed => rfl
    | written hrespond =>
      obtain ⟨e, -, -, hcommand, -⟩ := Channel.respond_change hrespond
      exact absurd ⟨e, hcommand⟩ hedit

/-- Two channels, of which the second has a member that the program does not know. -/
def annotated : String :=
  "[[\"1\",\"main\",\"[0,[[\\\"B1\\\",\\\"true\\\"]]]\"],
    \x7b\"id\":\"2\",\"name\":\"beta\",\"branchMapping\":\"\",\"note\":\"keep\",
      \"branches\":[\x7b\"id\":\"B1\",\"name\":\"b\",\"since\":[7]\x7d]\x7d]"

theorem distinctKeys_annotated : (outlineOf annotated).distinctKeys = true := by decide +kernel

theorem exists_execute_annotated :
    ∃ result, execute (some annotated) (written (.insert "B2" .full "1.0")) = .ok result :=
  Outcome.exists_of_isOk (by decide +kernel)

/-- A rollout is inserted into the first channel, and both records are there again. -/
theorem execute_retains_annotated :
    (outlineOf annotated).distinctKeys = true ∧
      (written (.insert "B2" .full "1.0")).write = true ∧
      ∃ result, execute (some annotated) (written (.insert "B2" .full "1.0")) = .ok result ∧
        ∃ updated text', result.file = some text' ∧
          Retains updated (outlineOf annotated) (outlineOf text') := by
  obtain ⟨result, hresult⟩ := exists_execute_annotated
  refine ⟨distinctKeys_annotated, rfl, result, hresult, ?_⟩
  obtain ⟨hnot, -⟩ | ⟨_, front, _, _, text', -, -, -, -, hfile, hretains⟩ :=
    execute_retains distinctKeys_annotated rfl hresult
  · exact absurd rfl (hnot (.insert "B2" .full "1.0"))
  · exact ⟨front.length, text', hfile, hretains⟩

/-- A rollout is inserted into the first channel, and a member of the second one is lost. -/
theorem execute_drops_unknown :
    (outlineOf annotated).distinctKeys = true ∧
      (∃ record ∈ (outlineOf annotated).items, "note" ∈ record.keys) ∧
      ∃ result text', execute (some annotated) (written (.insert "B2" .full "1.0")) = .ok result ∧
        result.file = some text' ∧ ∀ record ∈ (outlineOf text').items, "note" ∉ record.keys := by
  obtain ⟨result, hresult⟩ := exists_execute_annotated
  obtain ⟨_, _, _, _, text', -, -, -, -, hfile, hretains⟩ :=
    edit_retains distinctKeys_annotated rfl rfl hresult
  refine ⟨distinctKeys_annotated, by decide +kernel, result, text', hresult, hfile, ?_⟩
  intro record hmem hnote
  obtain ⟨_, _, hkept⟩ := hretains.exists_old hmem
  exact absurd (hkept.only "note" hnote) (by decide)

end ChannelFile

end StagedRollout
