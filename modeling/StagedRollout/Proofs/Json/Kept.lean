/-
# StagedRollout.Proofs.Json.Kept -- values that are kept as they were read

A value that nobody looks into is read, kept, and written again, and is the same value when it is
read the next time. What makes it so is `Json.Stored`: its numbers are of the kinds that literals
denote, the members of its objects are in strictly ascending order, and it nests no deeper than
there is room. Whatever is read off an outline is stored (`stored_of_read`), and what is stored is
read off every tree that denotes it (`read_of_denotes`).
-/
import StagedRollout.Proofs.Json.Written
import StagedRollout.Proofs.Wire.Fields

namespace StagedRollout

/-! ## Ascending members -/

/-- Members in strictly ascending order of their keys. -/
def Ascending (members : List (String × Json)) : Prop := members.Pairwise fun a b => a.1 < b.1

theorem key_lt_of_not_lt {a b : String} (hne : a ≠ b) (h : ¬a < b) : b < a := by
  by_cases hlt : b < a
  · exact hlt
  · exact absurd (String.le_antisymm (String.not_lt.1 hlt) (String.not_lt.1 h)) hne

/-- Inserting a member adds nothing else. -/
theorem mem_insertMember {key : String} {value : Json} {members : List (String × Json)}
    {member : String × Json} (h : member ∈ insertMember key value members) :
    member = (key, value) ∨ member ∈ members := by
  induction members with
  | nil => exact .inl (List.mem_singleton.1 h)
  | cons first rest ih =>
    rw [insertMember] at h
    split at h
    · exact List.mem_cons.1 h
    · split at h
      · exact (List.mem_cons.1 h).imp_right (List.mem_cons_of_mem _)
      · rcases List.mem_cons.1 h with rfl | h
        · exact .inr List.mem_cons_self
        · exact (ih h).imp_right (List.mem_cons_of_mem _)

/-- Setting a member keeps the order. -/
theorem ascending_insertMember (key : String) (value : Json) {members : List (String × Json)}
    (h : Ascending members) : Ascending (insertMember key value members) := by
  induction members with
  | nil => exact List.pairwise_singleton _ _
  | cons first rest ih =>
    obtain ⟨hfirst, hrest⟩ := List.pairwise_cons.1 h
    rw [insertMember]
    split
    · next hlt =>
      refine List.pairwise_cons.2 ⟨?_, h⟩
      intro member hmem
      rcases List.mem_cons.1 hmem with rfl | hmem
      · exact hlt
      · exact String.lt_trans hlt (hfirst member hmem)
    · next hlt =>
      split
      · next heq =>
        refine List.pairwise_cons.2 ⟨?_, hrest⟩
        intro member hmem
        rw [heq]
        exact hfirst member hmem
      · next hne =>
        refine List.pairwise_cons.2 ⟨?_, ih hrest⟩
        intro member hmem
        rcases mem_insertMember hmem with rfl | hmem
        · exact key_lt_of_not_lt hne hlt
        · exact hfirst member hmem

/-- A member whose key is above all others is put behind them. -/
theorem insertMember_of_above {key : String} {value : Json} {members : List (String × Json)}
    (h : ∀ member ∈ members, member.1 < key) :
    insertMember key value members = members ++ [(key, value)] := by
  induction members with
  | nil => rfl
  | cons first rest ih =>
    have hfirst := h first List.mem_cons_self
    have hne : key ≠ first.1 := fun heq => String.lt_irrefl _ (heq ▸ hfirst)
    rw [insertMember, if_neg (String.lt_asymm hfirst), if_neg hne,
      ih fun member hmem => h member (List.mem_cons_of_mem _ hmem)]
    rfl

/-- Sorted members are ascending. -/
theorem ascending_sortMembers (members : List (String × Json)) :
    Ascending (sortMembers members) := by
  apply List.foldlRecOn members _ .nil
  intro sorted h member _
  exact ascending_insertMember member.1 member.2 h

theorem mem_sortMembers {members : List (String × Json)} :
    ∀ member ∈ sortMembers members, member ∈ members := by
  apply List.foldlRecOn (motive := fun sorted => ∀ member ∈ sorted, member ∈ members) members _
    (by simp)
  intro sorted h first hfirst member hmem
  rcases mem_insertMember hmem with rfl | hmem
  · exact hfirst
  · exact h member hmem

/-- Members that go on in ascending order are put one behind the other. -/
theorem foldl_insertMember {sorted members : List (String × Json)}
    (h : Ascending (sorted ++ members)) :
    members.foldl (fun sorted (key, value) => insertMember key value sorted) sorted =
      sorted ++ members := by
  induction members generalizing sorted with
  | nil => simp
  | cons member rest ih =>
    have habove : ∀ other ∈ sorted, other.1 < member.1 := by
      intro other hmem
      exact (List.pairwise_append.1 h).2.2 other hmem member List.mem_cons_self
    rw [List.foldl_cons]
    show List.foldl _ (insertMember member.1 member.2 sorted) rest = _
    rw [insertMember_of_above habove, ih, List.append_assoc]
    · rfl
    · rw [List.append_assoc]
      exact h

/-- Ascending members stay as they are. -/
theorem sortMembers_of_ascending {members : List (String × Json)} (h : Ascending members) :
    sortMembers members = members :=
  foldl_insertMember h

/-! ## Stored values -/

/-- A value as it is kept, with room for so many arrays and objects inside it. -/
inductive Json.Stored : (room : Nat) → Json → Prop
  | null {room : Nat} : Stored room .null
  | bool {room : Nat} {value : Bool} : Stored room (.bool value)
  | int {room : Nat} {i : Int} (hmachine : Machine i) : Stored room (.int i)
  | float {room : Nat} {x : Binary64} (hfinite : x.isFinite = true) : Stored room (.float x)
  | text {room : Nat} {content : String} : Stored room (.text content)
  | array {room : Nat} {items : List Json} (hitems : ∀ item ∈ items, Stored room item) :
      Stored (room + 1) (.array items)
  | object {room : Nat} {members : List (String × Json)} (hascending : Ascending members)
      (hmembers : ∀ member ∈ members, Stored room member.2) : Stored (room + 1) (.object members)

theorem writableItems_of_forall {items : List Json} (h : ∀ item ∈ items, item.Writable) :
    WritableItems items := by
  induction items with
  | nil => trivial
  | cons item rest ih =>
    obtain ⟨hfirst, hrest⟩ := List.forall_mem_cons.1 h
    exact ⟨hfirst, ih hrest⟩

theorem writableMembers_of_forall {members : List (String × Json)}
    (h : ∀ member ∈ members, member.2.Writable) : WritableMembers members := by
  induction members with
  | nil => trivial
  | cons member rest ih =>
    obtain ⟨hfirst, hrest⟩ := List.forall_mem_cons.1 h
    exact ⟨hfirst, ih hrest⟩

/-- What is stored is fit to be written. -/
theorem Json.Stored.writable {json : Json} {room : Nat} (h : json.Stored room) :
    json.Writable := by
  induction h with
  | int hmachine => exact hmachine
  | float hfinite => exact hfinite
  | array _ ih => exact writableItems_of_forall ih
  | object _ _ ih => exact writableMembers_of_forall ih
  | _ => trivial

/-! ## What is read is stored -/

/-- A numeral is read as an integer only if it fits a machine word. -/
theorem Numeral.machine_of_toInt? {n : Numeral} {i : Int} (h : n.toInt? = some i) :
    Machine i := by
  unfold toInt? at h
  split at h
  · split at h
    · simp only [Option.ite_none_right_eq_some, Option.some.injEq] at h
      obtain ⟨⟨-, hle⟩, rfl⟩ := h
      have hpos : (0 : Int) < unsignedSpan := by decide
      exact ⟨by omega, by omega⟩
    · simp only [Option.ite_none_right_eq_some, Option.some.injEq] at h
      obtain ⟨hlt, rfl⟩ := h
      exact ⟨by omega, by omega⟩
  · exact absurd h (by simp)

/-- What a numeral is read as can be stored. -/
theorem Numeral.stored_of_value? {n : Numeral} {json : Json} {room : Nat}
    (h : n.value? = some json) : json.Stored room := by
  obtain ⟨i, hint, rfl⟩ | ⟨x, rfl, hfinite⟩ := value?_eq_some h
  · exact .int (machine_of_toInt? hint)
  · exact .float hfinite

mutual

/-- **What is read off an outline is stored**, within the room that there was. -/
theorem stored_of_read : ∀ (o : Outline) {room : Nat} {json : Json}, o.read room = .ok json →
    json.Stored room
  | .null, room, json, h => by
      rw [Outline.read] at h
      exact Except.ok.inj h ▸ .null
  | .bool value, room, json, h => by
      rw [Outline.read] at h
      exact Except.ok.inj h ▸ .bool
  | .number numeral, room, json, h => by
      rw [Outline.read] at h
      split at h
      · next json' hvalue => exact Except.ok.inj h ▸ Numeral.stored_of_value? hvalue
      · exact absurd h (by simp)
  | .text content, room, json, h => by
      rw [Outline.read] at h
      obtain ⟨string, -, rfl⟩ := Outcome.map_eq_ok.1 h
      exact .text
  | .array items, 0, json, h => absurd h (by simp [Outline.read])
  | .array items, room + 1, json, h => by
      rw [Outline.read] at h
      obtain ⟨jsons, hitems, rfl⟩ := Outcome.map_eq_ok.1 h
      exact .array (stored_of_readItems items hitems)
  | .object members, 0, json, h => absurd h (by simp [Outline.read])
  | .object members, room + 1, json, h => by
      rw [Outline.read] at h
      obtain ⟨ms, hmembers, rfl⟩ := Outcome.map_eq_ok.1 h
      -- the members are in the order of the text first, and sorted only then
      exact .object (ascending_sortMembers ms) fun member hmem =>
        stored_of_readMembers members hmembers member (mem_sortMembers member hmem)
  | .missing, _, _, h => absurd h (by simp [Outline.read])
  | .brokenText _ _, _, _, h => absurd h (by simp [Outline.read])
  | .broken _ _, _, _, h => absurd h (by simp [Outline.read])

/-- So it is for all items that are read. -/
theorem stored_of_readItems : ∀ (items : Items) {room : Nat} {jsons : List Json},
    items.read room = .ok jsons → ∀ json ∈ jsons, json.Stored room
  | .closed, room, jsons, h => by
      rw [Items.read] at h
      exact Except.ok.inj h ▸ by simp
  | .cut _, _, _, h => absurd h (by simp [Items.read])
  | .malformed, _, _, h => absurd h (by simp [Items.read])
  | .item head tail, room, jsons, h => by
      rw [Items.read] at h
      obtain ⟨json, hhead, h⟩ := Outcome.bind_eq_ok.1 h
      obtain ⟨rest, htail, h⟩ := Outcome.bind_eq_ok.1 h
      obtain rfl := Except.ok.inj h
      exact List.forall_mem_cons.2 ⟨stored_of_read head hhead, stored_of_readItems tail htail⟩

/-- So it is for the values of all members that are read. -/
theorem stored_of_readMembers : ∀ (members : Members) {room : Nat} {ms : List (String × Json)},
    members.read room = .ok ms → ∀ member ∈ ms, member.2.Stored room
  | .closed, room, ms, h => by
      rw [Members.read] at h
      exact Except.ok.inj h ▸ by simp
  | .cut _, _, _, h => absurd h (by simp [Members.read])
  | .malformed, _, _, h => absurd h (by simp [Members.read])
  | .member key value tail, room, ms, h => by
      rw [Members.read] at h
      obtain ⟨name, -, h⟩ := Outcome.bind_eq_ok.1 h
      obtain ⟨json, hvalue, h⟩ := Outcome.bind_eq_ok.1 h
      obtain ⟨rest, htail, h⟩ := Outcome.bind_eq_ok.1 h
      obtain rfl := Except.ok.inj h
      exact List.forall_mem_cons.2
        ⟨stored_of_read value hvalue, stored_of_readMembers tail htail⟩

end

/-! ## What is stored is read again -/

/-- A numeral of no integer is read as the double of its reading. -/
theorem Numeral.value?_of_float {n : Numeral} {x : Binary64} (hint : n.toInt? = none)
    (hread : n.reading.toBinary64 = x) (hfinite : x.isFinite = true) :
    n.value? = some (.float x) := by
  unfold value?
  rw [hint, hread]
  cases x with
  | finite negative m => rfl
  | _ => exact absurd hfinite Bool.false_ne_true

mutual

/-- **What is stored is read off every tree that denotes it.** -/
theorem read_of_denotes : ∀ {tree : JsonTree} {json : Json}, Denotes tree json → ∀ {room : Nat},
    json.Stored room → tree.outline.read room = .ok json
  | _, _, .null, room, _ => by rw [JsonTree.outline, Outline.read]
  | _, _, .bool value, room, _ => by rw [JsonTree.outline, Outline.read]
  | _, _, .int h, room, _ => by
      rw [JsonTree.outline, Outline.read, Numeral.value?_of_toInt? h]
  | _, _, .float hint hread hfinite, room, _ => by
      rw [JsonTree.outline, Outline.read, Numeral.value?_of_float hint hread hfinite]
  | _, _, .text content, room, _ => by rw [JsonTree.outline, Outline.read, Outcome.map_ok]
  | _, _, .array h, _, .array hitems => by
      rw [JsonTree.outline, Outline.read, readItems_of_denotes h hitems, Outcome.map_ok]
  | _, _, .object h, _, .object hascending hmembers => by
      rw [JsonTree.outline, Outline.read, readMembers_of_denotes h hmembers, Outcome.map_ok,
        sortMembers_of_ascending hascending]

theorem readItems_of_denotes : ∀ {trees : List JsonTree} {items : List Json},
    DenotesItems trees items → ∀ {room : Nat}, (∀ item ∈ items, item.Stored room) →
    (itemsOutline trees).read room = .ok items
  | _, _, .nil, room, _ => by rw [itemsOutline, Items.read]
  | _, _, .cons h hrest, room, hstored => by
      obtain ⟨hfirst, hstored⟩ := List.forall_mem_cons.1 hstored
      rw [itemsOutline, Items.read, read_of_denotes h hfirst, readItems_of_denotes hrest hstored]
      rfl

theorem readMembers_of_denotes : ∀ {trees : List (String × JsonTree)}
    {members : List (String × Json)}, DenotesMembers trees members → ∀ {room : Nat},
    (∀ member ∈ members, member.2.Stored room) → (membersOutline trees).read room = .ok members
  | _, _, .nil, room, _ => by rw [membersOutline, Members.read]
  | _, _, .cons h hrest, room, hstored => by
      obtain ⟨hfirst, hstored⟩ := List.forall_mem_cons.1 hstored
      rw [membersOutline, Members.read, read_of_denotes h hfirst,
        readMembers_of_denotes hrest hstored]
      rfl

end

end StagedRollout
