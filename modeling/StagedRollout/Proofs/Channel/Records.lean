/-
# StagedRollout.Proofs.Channel.Records -- channels that are kept as they were read

A branch holds whatever its record said besides its id and name, and the program never looks into
it. `KeptMembers` says what such members are like when they come out of a reader: ascending, under
no known name, and each a value that can be stored. From a branch like that the writer makes a
record that is read as the same branch (`Branch.read_of_denotes`), and from a channel of such
branches one that is read as the same channel (`Channel.read_of_denotes`).
-/
import StagedRollout.Proofs.Json.Kept
import StagedRollout.Proofs.Mapping.Acceptance
import StagedRollout.Channel.Basic

namespace StagedRollout

/-! ## Lists -/

/-- Whatever stands in a list that was read has been read itself, with one bracket less room. -/
theorem exists_of_readList {α : Type} {read : Nat → Outline → ReadResult α} {room : Nat}
    {o : Outline} {as : List α} (h : readList read (room + 1) o = .ok as) {a : α} (hmem : a ∈ as) :
    ∃ o', read room o' = .ok a := by
  obtain ⟨items, left, -, hroom, hread⟩ := readList_eq_ok.1 h
  obtain rfl := Nat.succ.inj hroom
  exact Items.exists_of_readAll hread hmem

/-- A list is read off the trees of its written items if each of them is. -/
theorem readList_of_denotes {α : Type} {read : Nat → Outline → ReadResult α} {toJson : α → Json}
    {room : Nat} {as : List α} {trees : List JsonTree} (h : DenotesItems trees (as.map toJson))
    (hread : ∀ a ∈ as, ∀ tree, Denotes tree (toJson a) → read room tree.outline = .ok a) :
    readList read (room + 1) (JsonTree.array trees).outline = .ok as := by
  refine readList_eq_ok.2 ⟨_, room, rfl, rfl, readAll_itemsOutline.2 ?_⟩
  induction as generalizing trees with
  | nil =>
    cases h
    exact .nil
  | cons a as ih =>
    obtain _ | ⟨hfirst, hrest⟩ := h
    obtain ⟨hread, hreads⟩ := List.forall_mem_cons.1 hread
    exact .cons (hread _ hfirst) (ih hrest hreads)

/-! ## Branches -/

/-- What a branch keeps besides its id and name: ascending members under other names, each with a
value that can be stored. -/
structure KeptMembers (room : Nat) (extra : List (String × Json)) : Prop where
  ascending : Ascending extra
  unknown : ∀ member ∈ extra, member.1 ≠ "id" ∧ member.1 ≠ "name"
  stored : ∀ member ∈ extra, member.2.Stored room

theorem KeptMembers.nil (room : Nat) : KeptMembers room [] :=
  ⟨.nil, by simp, by simp⟩

theorem KeptMembers.insert {room : Nat} {extra : List (String × Json)} (h : KeptMembers room extra)
    {key : String} {value : Json} (hkey : key ≠ "id" ∧ key ≠ "name") (hvalue : value.Stored room) :
    KeptMembers room (insertMember key value extra) where
  ascending := ascending_insertMember key value h.ascending
  unknown := by
    intro member hmem
    rcases mem_insertMember hmem with rfl | hmem
    · exact hkey
    · exact h.unknown member hmem
  stored := by
    intro member hmem
    rcases mem_insertMember hmem with rfl | hmem
    · exact hvalue
    · exact h.stored member hmem

namespace BranchDraft

/-- A member of no known name is kept. -/
theorem take_unknown {room : Nat} {draft : BranchDraft} {key : String} {value : Outline}
    (hid : key ≠ "id") (hname : key ≠ "name") :
    take room draft key value = (do
      let json ← ReadResult.ofText (value.read room)
      return { draft with extra := insertMember key json draft.extra }) := by
  unfold take
  split
  · exact absurd rfl hid
  · exact absurd rfl hname
  · rfl

/-- A step keeps what has been gathered as it should be. -/
theorem keptMembers_take {room : Nat} (draft : BranchDraft) (key : String) (value : Outline)
    (draft' : BranchDraft) (h : take room draft key value = .ok draft')
    (hkept : KeptMembers room draft.extra) : KeptMembers room draft'.extra := by
  by_cases hid : key = "id"
  · subst hid
    obtain ⟨_, -, h⟩ := Outcome.bind_eq_ok.1 h
    exact Except.ok.inj h ▸ hkept
  · by_cases hname : key = "name"
    · subst hname
      obtain ⟨_, -, h⟩ := Outcome.bind_eq_ok.1 h
      exact Except.ok.inj h ▸ hkept
    · rw [take_unknown hid hname] at h
      obtain ⟨json, hread, h⟩ := Outcome.bind_eq_ok.1 h
      obtain rfl := Except.ok.inj h
      exact hkept.insert ⟨hid, hname⟩ (stored_of_read value (ReadResult.ofText_eq_ok.1 hread))

theorem finish_eq_ok {draft : BranchDraft} {b : Branch} :
    draft.finish = .ok b ↔ draft = ⟨some b.id, some b.name, b.extra⟩ := by
  obtain ⟨id, name, extra⟩ := draft
  simp only [finish, Outcome.bind_eq_ok, required_eq_ok, Outcome.pure_eq_ok, Except.ok.injEq,
    mk.injEq]
  constructor
  · rintro ⟨_, rfl, _, rfl, rfl⟩
    exact ⟨rfl, rfl, rfl⟩
  · rintro ⟨rfl, rfl, rfl⟩
    exact ⟨_, rfl, _, rfl, rfl⟩

/-- A walk over kept members gathers them as they are: each of them goes behind the last one. -/
theorem gather_kept {room : Nat} {id name : Option String} {trees : List (String × JsonTree)}
    {extra members : List (String × Json)} (h : DenotesMembers trees members)
    (hkept : KeptMembers room (extra ++ members)) :
    (membersOutline trees).gather (take room) ⟨id, name, extra⟩ =
      .ok ⟨id, name, extra ++ members⟩ := by
  induction members generalizing trees extra with
  | nil =>
    cases h
    rw [List.append_nil]
    rfl
  | cons member members ih =>
    obtain ⟨key, value⟩ := member
    obtain _ | ⟨hfirst, hrest⟩ := h
    have hmem : (key, value) ∈ extra ++ (key, value) :: members := by simp
    obtain ⟨hid, hname⟩ := hkept.unknown _ hmem
    have hread := StagedRollout.read_of_denotes hfirst (hkept.stored _ hmem)
    have habove : ∀ other ∈ extra, other.1 < key := by
      intro other hother
      exact (List.pairwise_append.1 hkept.ascending).2.2 other hother _ List.mem_cons_self
    rw [List.append_cons] at hkept ⊢
    rw [membersOutline, Members.gather]
    simp only [ReadResult.ofText, Outcome.ok_bind]
    rw [take_unknown hid hname, hread]
    simp only [ReadResult.ofText, Outcome.ok_bind, Outcome.pure_eq_ok]
    rw [insertMember_of_above habove]
    exact ih hrest hkept

end BranchDraft

namespace Branch

/-- What a branch holds after it was read. -/
theorem keptMembers_of_read {room : Nat} {o : Outline} {b : Branch}
    (h : Branch.read (room + 1) o = .ok b) : KeptMembers room b.extra := by
  cases o with
  | object members =>
    rw [Branch.read, opening] at h
    obtain ⟨draft, hgather, hfinish⟩ := Outcome.bind_eq_ok.1 h
    obtain rfl := BranchDraft.finish_eq_ok.1 hfinish
    exact Members.gather_invariant (P := fun draft => KeptMembers room draft.extra)
      BranchDraft.keptMembers_take hgather (KeptMembers.nil room)
  | _ => exact absurd h Outline.refuse_ne_ok

/-- **A written branch is read as it was.** -/
theorem read_of_denotes {room : Nat} {b : Branch} {tree : JsonTree} (h : Denotes tree b.toJson)
    (hkept : KeptMembers room b.extra) : Branch.read (room + 1) tree.outline = .ok b := by
  obtain _ | _ | _ | _ | _ | _ | ⟨hmembers⟩ := h
  obtain _ | ⟨hid, _ | ⟨hname, hextra⟩⟩ := hmembers
  cases hid
  cases hname
  -- its id and name come first, and the rest is gathered from nothing
  have hgather : (membersOutline _).gather (BranchDraft.take room) ⟨some b.id, some b.name, []⟩ =
      .ok ⟨some b.id, some b.name, b.extra⟩ := BranchDraft.gather_kept hextra hkept
  show ((membersOutline _).gather (BranchDraft.take room) ⟨some b.id, some b.name, []⟩ >>= _) = _
  rw [hgather]
  exact BranchDraft.finish_eq_ok.2 rfl

end Branch

/-! ## Channels -/

namespace ChannelDraft

/-- The fields of a channel. -/
def fields (room : Nat) : List (Field ChannelDraft) :=
  [⟨"id", String, id, fun d value => { d with id := value }, readText⟩,
    ⟨"name", String, name, fun d value => { d with name := value }, readText⟩,
    ⟨"branchMapping", String, mappingText, fun d value => { d with mappingText := value },
      readText⟩,
    ⟨"branches", List Branch, branches, fun d value => { d with branches := value },
      readList Branch.read room⟩]

theorem governs (room : Nat) : Governs (take room) (fields room) where
  own := by
    intro f hf s o
    simp only [fields, List.mem_cons, List.not_mem_nil, or_false] at hf
    rcases hf with rfl | rfl | rfl | rfl <;> rfl
  slot_fill := by
    intro f hf s value
    simp only [fields, List.mem_cons, List.not_mem_nil, or_false] at hf
    rcases hf with rfl | rfl | rfl | rfl <;> rfl
  slot_other := by
    intro f hf g hg hne s value
    simp only [fields, List.mem_cons, List.not_mem_nil, or_false] at hf hg
    rcases hf with rfl | rfl | rfl | rfl <;> rcases hg with rfl | rfl | rfl | rfl <;>
      first | rfl | exact absurd rfl hne
  passes := by
    intro key hkey s o
    simp only [fields, List.forall_mem_cons] at hkey
    unfold take
    split
    · exact absurd rfl hkey.1
    · exact absurd rfl hkey.2.1
    · exact absurd rfl hkey.2.2.1
    · exact absurd rfl hkey.2.2.2.1
    · rfl

theorem finish_eq_ok {draft : ChannelDraft} {c : Channel} :
    draft.finish = .ok c ↔ draft.id = some c.id ∧ draft.name = some c.name ∧
      draft.mappingText = some c.mappingText ∧ draft.branches.getD [] = c.branches := by
  obtain ⟨id, name, mappingText, branches⟩ := draft
  simp only [finish, Outcome.bind_eq_ok, required_eq_ok, Outcome.pure_eq_ok, Except.ok.injEq]
  constructor
  · rintro ⟨_, rfl, _, rfl, _, rfl, rfl⟩
    exact ⟨rfl, rfl, rfl, rfl⟩
  · rintro ⟨rfl, rfl, rfl, hbranches⟩
    exact ⟨_, rfl, _, rfl, _, rfl, by rw [hbranches]⟩

end ChannelDraft

namespace Channel

/-- The branches of a channel that was read are none, or were read themselves. -/
theorem branches_of_read {room : Nat} {o : Outline} {c : Channel}
    (h : Channel.read (room + 1) o = .ok c) :
    c.branches = [] ∨ ∃ o', readList Branch.read room o' = .ok c.branches := by
  cases o with
  | object members =>
    rw [Channel.read, opening] at h
    obtain ⟨draft, hgather, hfinish⟩ := Outcome.bind_eq_ok.1 h
    obtain ⟨-, -, -, hbranches⟩ := ChannelDraft.finish_eq_ok.1 hfinish
    rw [← hbranches]
    cases hslot : draft.branches with
    | none => exact .inl rfl
    | some branches =>
      obtain ⟨o', -, hread⟩ := (ChannelDraft.governs room).gather_fills
        (.tail _ (.tail _ (.tail _ (.head _)))) hgather rfl hslot
      exact .inr ⟨o', hread⟩
  | array items =>
    rw [Channel.read, opening] at h
    obtain ⟨⟨id, items⟩, -, h⟩ := Outcome.bind_eq_ok.1 h
    obtain ⟨⟨name, items⟩, -, h⟩ := Outcome.bind_eq_ok.1 h
    obtain ⟨⟨mappingText, items⟩, -, h⟩ := Outcome.bind_eq_ok.1 h
    -- the array ends behind the third item, or the fourth is the list of branches
    dsimp only at h
    split at h
    · exact .inl (Except.ok.inj h ▸ rfl)
    · obtain ⟨⟨branches, rest⟩, hnext, h⟩ := Outcome.bind_eq_ok.1 h
      obtain ⟨⟨⟩, -, h⟩ := Outcome.bind_eq_ok.1 h
      obtain ⟨head, -, hread⟩ := Items.next_eq_ok.1 hnext
      exact .inr ⟨head, Except.ok.inj h ▸ hread⟩
  | _ => exact absurd h Outline.refuse_ne_ok

/-- A channel is read off members with distinct keys if each of its fields is. -/
theorem read_of_members {room : Nat} {members : List (String × JsonTree)} {c : Channel}
    (hdistinct : (members.map Prod.fst).Nodup)
    (hid : ∃ tree, ("id", tree) ∈ members ∧ readText tree.outline = .ok c.id)
    (hname : ∃ tree, ("name", tree) ∈ members ∧ readText tree.outline = .ok c.name)
    (hmapping : ∃ tree, ("branchMapping", tree) ∈ members ∧
      readText tree.outline = .ok c.mappingText)
    (hbranches : ∃ tree, ("branches", tree) ∈ members ∧
      readList Branch.read room tree.outline = .ok c.branches) :
    Channel.read (room + 1) (.object (membersOutline members)) = .ok c := by
  have hempty : ∀ f ∈ ChannelDraft.fields room, f.slot ChannelDraft.empty = none := by
    simp [ChannelDraft.fields, ChannelDraft.empty]
  have hgiven : ∀ f ∈ ChannelDraft.fields room, ∃ value, Governs.Given members f value := by
    simp only [ChannelDraft.fields, List.forall_mem_cons]
    exact ⟨⟨_, hid⟩, ⟨_, hname⟩, ⟨_, hmapping⟩, ⟨_, hbranches⟩, by simp⟩
  obtain ⟨draft, hgather, hslots⟩ :=
    (ChannelDraft.governs room).gather_given hdistinct hempty hgiven
  simp only [ChannelDraft.fields, List.forall_mem_cons] at hslots
  rw [Channel.read, opening, hgather, Outcome.ok_bind, ChannelDraft.finish_eq_ok]
  refine ⟨hslots.1 _ hid, hslots.2.1 _ hname, hslots.2.2.1 _ hmapping, ?_⟩
  rw [show draft.branches = _ from hslots.2.2.2.1 _ hbranches]
  rfl

/-- Every branch of a channel keeps what it should. -/
def Stored (room : Nat) (c : Channel) : Prop := ∀ b ∈ c.branches, KeptMembers room b.extra

/-- What a channel holds after it was read. -/
theorem stored_of_read {room : Nat} {o : Outline} {c : Channel}
    (h : Channel.read (room + 3) o = .ok c) : c.Stored room := by
  intro b hb
  obtain hnone | ⟨o', hread⟩ := branches_of_read h
  · rw [hnone] at hb
    exact absurd hb (by simp)
  · obtain ⟨_, hbranch⟩ := exists_of_readList hread hb
    exact Branch.keptMembers_of_read hbranch

/-- **A written channel is read as it was.** -/
theorem read_of_denotes {room : Nat} {c : Channel} {tree : JsonTree} (h : Denotes tree c.toJson)
    (hstored : c.Stored room) : Channel.read (room + 3) tree.outline = .ok c := by
  obtain _ | _ | _ | _ | _ | _ | ⟨hmembers⟩ := h
  obtain _ | ⟨hid, _ | ⟨hname, _ | ⟨hmapping, _ | ⟨hbranches, ⟨⟩⟩⟩⟩⟩ := hmembers
  cases hid
  cases hname
  cases hmapping
  obtain _ | _ | _ | _ | _ | ⟨hitems⟩ | _ := hbranches
  have hbranches : ∀ b ∈ c.branches, ∀ tree, Denotes tree b.toJson →
      Branch.read (room + 1) tree.outline = .ok b := by
    intro b hb tree hbranch
    exact Branch.read_of_denotes hbranch (hstored b hb)
  have hread : readList Branch.read (room + 2) _ = .ok c.branches :=
    readList_of_denotes hitems hbranches
  refine read_of_members ?_ ⟨.text c.id, by simp, rfl⟩ ⟨.text c.name, by simp, rfl⟩
    ⟨.text c.mappingText, by simp, rfl⟩ ⟨_, by simp, hread⟩
  show ["id", "name", "branchMapping", "branches"].Nodup
  decide

/-- A stored channel is fit to be written. -/
theorem Stored.writable {room : Nat} {c : Channel} (h : c.Stored room) : c.toJson.Writable := by
  refine ⟨trivial, trivial, trivial, writableItems_of_forall ?_, trivial⟩
  intro item hitem
  obtain ⟨b, hb, rfl⟩ := List.mem_map.1 hitem
  refine ⟨trivial, trivial, writableMembers_of_forall ?_⟩
  intro member hmem
  exact ((h b hb).stored member hmem).writable

end Channel

end StagedRollout
