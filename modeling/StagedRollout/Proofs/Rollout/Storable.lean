/-
# StagedRollout.Proofs.Rollout.Storable -- edited mappings can be stored

A mapping is `Storable` if its entries can be written with no more brackets open at once than
a reader of the whole text has room for. Mappings that were read are, and every edit keeps them
so: a share is a finite number, which takes no brackets, so that setting one makes no entry
deeper, and the entries that edits make are shallow. What is written of a storable mapping is
read as an equal one, at the same version and with the fallback where it was.
-/
import StagedRollout.Proofs.Mapping.Equality
import StagedRollout.Proofs.Mapping.RoundTrip
import StagedRollout.Proofs.Rollout.Edited

namespace StagedRollout

/- Powers of natural numbers are the core library's own. -/
attribute [local instance (2000)] instPowNat

/- The stored fraction is a quotient of large numbers, which nothing here looks into. -/
attribute [local irreducible] Percent.fraction Percent.ofFraction

/-! ## Nodes that can be written with limited room -/

/-- A node can be written, with so many brackets open at once and no more. -/
def Node.WrittenIn (room : Nat) (node : Node) : Prop :=
  ∃ json, node.toJson = .ok json ∧ json.depth ≤ room

/-- Nodes can be written in limited room if each of them can. -/
theorem exists_nodesToJson_iff {room : Nat} {nodes : List Node} :
    (∃ jsons, nodesToJson nodes = .ok jsons ∧ jsonsDepth jsons ≤ room) ↔
      ∀ node ∈ nodes, node.WrittenIn room := by
  induction nodes with
  | nil => exact ⟨fun _ => by simp, fun _ => ⟨[], by rw [nodesToJson], Nat.zero_le _⟩⟩
  | cons node rest ih =>
    rw [List.forall_mem_cons, ← ih]
    constructor
    · rintro ⟨jsons, h, hdepth⟩
      rw [nodesToJson] at h
      obtain ⟨json, hnode, h⟩ := Outcome.bind_eq_ok.1 h
      obtain ⟨tail, hrest, h⟩ := Outcome.bind_eq_ok.1 h
      obtain rfl := Except.ok.inj h
      rw [jsonsDepth] at hdepth
      exact ⟨⟨json, hnode, by omega⟩, tail, hrest, by omega⟩
    · rintro ⟨⟨json, hnode, hdepth⟩, tail, hrest, hdepth'⟩
      refine ⟨json :: tail, ?_, ?_⟩
      · rw [nodesToJson, hnode, hrest]
        rfl
      · rw [jsonsDepth]
        omega

namespace Node

theorem writtenIn_alwaysTrue (room : Nat) : alwaysTrue.WrittenIn room :=
  ⟨_, by rw [toJson], Nat.zero_le _⟩

/-- A conjunction takes one bracket more than its nodes. -/
theorem writtenIn_all {room : Nat} {nodes : List Node} :
    (all nodes).WrittenIn room ↔
      ∃ left, room = left + 1 ∧ ∀ node ∈ nodes, node.WrittenIn left := by
  constructor
  · rintro ⟨json, h, hdepth⟩
    rw [toJson] at h
    obtain ⟨jsons, hnodes, rfl⟩ := Outcome.map_eq_ok.1 h
    obtain ⟨left, rfl, hinside⟩ := exists_left hdepth
    rw [jsonsDepth] at hinside
    exact ⟨left, rfl, exists_nodesToJson_iff.1 ⟨jsons, hnodes, by omega⟩⟩
  · rintro ⟨left, rfl, h⟩
    obtain ⟨jsons, hnodes, hdepth⟩ := exists_nodesToJson_iff.2 h
    refine ⟨.array (.text "and" :: jsons), by rw [toJson, hnodes, Outcome.map_ok], ?_⟩
    simp only [Json.depth, jsonsDepth]
    omega

/-- A predicate needs room for the braces around its members. -/
theorem room_of_writtenIn_predicate {room : Nat} {p : Predicate}
    (h : (predicate p).WrittenIn room) : ∃ left, room = left + 1 := by
  obtain ⟨json, h, hdepth⟩ := h
  rw [toJson] at h
  obtain ⟨operand, -, rfl⟩ := Predicate.toJson_eq_ok.1 h
  obtain ⟨left, rfl, -⟩ := exists_left hdepth
  exact ⟨left, rfl⟩

/-- A predicate whose operand takes no brackets takes one. -/
theorem writtenIn_predicate {p : Predicate} {operand : Json} (h : p.operand.toJson = .ok operand)
    (hdepth : operand.depth = 0) (room : Nat) : (predicate p).WrittenIn (room + 1) := by
  refine ⟨_, by rw [toJson]; exact Predicate.toJson_eq_ok.2 ⟨operand, h, rfl⟩, ?_⟩
  simp only [Json.depth, jsonMembersDepth, hdepth]
  omega

end Node

/-! ## Setting a share -/

/-- Fractions are finite. -/
theorem Binary64.isFinite_of_isFraction {x : Binary64} (h : x.isFraction = true) :
    x.isFinite = true := by
  obtain ⟨negative, m, rfl, -⟩ := (isFraction_iff x).1 h
  rfl

/-- A predicate that compares with the fraction of a percentage takes one bracket. -/
theorem Predicate.writtenIn_fraction {p : Predicate} {percent : Percent}
    (h : p.operand = .number percent.fraction) (room : Nat) :
    (Node.predicate p).WrittenIn (room + 1) := by
  have hfinite := Binary64.isFinite_of_isFraction percent.isFraction_fraction
  have hoperand : p.operand.toJson = .ok (Operand.numberJson percent.fraction) := by
    rw [h, Operand.toJson, if_pos hfinite]
  exact Node.writtenIn_predicate hoperand (depth_numberJson _) room

namespace Node

/-- Setting a share takes no more room than there was. -/
theorem WrittenIn.withPercent? {room : Nat} {node changed : Node} {percent : Percent}
    (hnode : node.WrittenIn room) (h : node.withPercent? percent = some changed) :
    changed.WrittenIn room := by
  obtain ⟨share, rfl, -, rfl⟩ | ⟨front, share, behind, rfl, -, -, rfl⟩ :=
    withPercent?_eq_some.1 h
  · obtain ⟨left, rfl⟩ := room_of_writtenIn_predicate hnode
    exact Predicate.writtenIn_fraction rfl left
  · obtain ⟨left, rfl, hnodes⟩ := writtenIn_all.1 hnode
    apply writtenIn_all.2
    refine ⟨left, rfl, ?_⟩
    rw [List.forall_mem_append, List.forall_mem_cons] at hnodes ⊢
    obtain ⟨hfront, hshare, hbehind⟩ := hnodes
    obtain ⟨inner, rfl⟩ := room_of_writtenIn_predicate hshare
    exact ⟨hfront, Predicate.writtenIn_fraction rfl inner, hbehind⟩

/-- What inserting makes takes two brackets. -/
theorem writtenIn_constrained (version : String) (percent : Percent) (room : Nat) :
    (constrained version percent).WrittenIn (room + 2) := by
  refine writtenIn_all.2 ⟨room + 1, rfl, ?_⟩
  simp only [List.forall_mem_cons, List.not_mem_nil, false_implies, implies_true, and_true]
  exact ⟨writtenIn_predicate rfl rfl room, Predicate.writtenIn_fraction rfl room⟩

end Node

/-! ## Mappings -/

/-- Every entry can be written in the room that a reader has for it: an entry stands in a list
and in the mapping itself, and its logic stands in the entry. -/
def Mapping.Storable (m : Mapping) : Prop :=
  ∀ entry ∈ m.entries, entry.logic.WrittenIn (nestingLimit - 3)

/-- An entry takes one level of room for itself and leaves the rest to its logic. -/
theorem Entry.writtenIn_logic {room : Nat} {entry : Entry} :
    (∃ json, entry.toJson = .ok json ∧ json.depth ≤ room + 1) ↔ entry.logic.WrittenIn room := by
  constructor
  · rintro ⟨json, h, hdepth⟩
    obtain ⟨logic, hlogic, rfl⟩ := toJson_eq_ok.1 h
    simp only [Json.depth, jsonMembersDepth] at hdepth
    exact ⟨logic, hlogic, by omega⟩
  · rintro ⟨logic, hlogic, hdepth⟩
    refine ⟨_, toJson_eq_ok.2 ⟨logic, hlogic, rfl⟩, ?_⟩
    simp only [Json.depth, jsonMembersDepth]
    omega

namespace Mapping

/-- What was read can be stored. -/
theorem storable_of_parse {raw : String} {m : Mapping} (h : parse raw = .ok m) : m.Storable := by
  obtain ⟨o, hread⟩ := exists_of_readWhole (parse_eq_ok.1 h)
  obtain ⟨inner, hroom, hentries⟩ := entries_of_read hread
  intro entry hmem
  apply Entry.writtenIn_logic.1
  obtain ⟨json, hjson, hdepth⟩ := hentries entry hmem
  have hroom : nestingLimit - 3 + 1 = inner := by
    rw [nestingLimit] at hroom ⊢
    omega
  exact ⟨json, hjson, hroom ▸ hdepth⟩

/-- **Edits keep a mapping storable.** -/
theorem Storable.edit {m edited : Mapping} (hm : m.Storable) {e : Edit}
    (h : m.edit e = .ok edited) : edited.Storable := by
  intro entry hmem
  cases mem_of_edit h hmem with
  | kept hmem => exact hm entry hmem
  | inserted hnew =>
    rw [hnew]
    exact Node.writtenIn_constrained _ _ _
  | collapsed hnew =>
    rw [hnew]
    exact Node.writtenIn_alwaysTrue _
  | changed hold hset =>
    obtain ⟨logic, hlogic, rfl⟩ := Option.map_eq_some_iff.1 hset
    exact (hm _ hold).withPercent? hlogic

/-- A storable mapping is written, and read again as an equal one. -/
theorem Storable.exists_parse {m : Mapping} (hm : m.Storable) :
    ∃ text, m.toText = .ok text ∧ ∃ m', parse text = .ok m' ∧ m'.same m = true := by
  obtain ⟨json, hjson, hdepth⟩ :=
    exists_toJson fun entry hmem => Entry.writtenIn_logic.2 (hm entry hmem)
  obtain ⟨-, hparse, -⟩ := parse_compact hjson
  exact ⟨json.compact, toText_eq_ok.2 ⟨json, hjson, rfl⟩, hparse hdepth⟩

/-! ## What equal mappings share -/

theorem isAlwaysTrue_of_same {a b : Node} (h : a.same b = true) :
    a.isAlwaysTrue = b.isAlwaysTrue := by
  cases a <;> cases b <;> first | rfl | exact absurd h (by simp [Node.same])

theorem version_of_same {a b : Mapping} (h : a.same b = true) : a.version = b.version :=
  (same_iff.1 h).1

theorem branchIds_of_same {a b : Mapping} (h : a.same b = true) : a.branchIds = b.branchIds := by
  obtain ⟨-, hentries⟩ := same_iff.1 h
  rw [branchIds, branchIds, ← List.forall₂_eq_eq_eq, List.forall₂_map_left_iff,
    List.forall₂_map_right_iff]
  exact hentries.imp fun _ _ hentry => hentry.branchId

/-- Of equal entries the last ones are fallbacks alike. -/
theorem endsInFallback_of_sameEntries {as bs : List Entry} (h : List.Forall₂ Entry.Same as bs) :
    as.getLast?.any Entry.isFallback = bs.getLast?.any Entry.isFallback := by
  induction h with
  | nil => rfl
  | @cons first first' rest rest' hfirst hrest ih =>
    have hnil : rest = [] ↔ rest' = [] := by cases hrest <;> simp
    rw [Bool.eq_iff_iff, endsInFallback_cons, endsInFallback_cons, ih, hnil, Entry.isFallback,
      Entry.isFallback, isAlwaysTrue_of_same hfirst.logic]

theorem endsInFallback_of_same {a b : Mapping} (h : a.same b = true) :
    a.endsInFallback = b.endsInFallback :=
  endsInFallback_of_sameEntries (same_iff.1 h).2

/-- **What an edit leaves is read again.** Of a mapping that was read, every edit that succeeds
can be written, and what is written is read as a mapping that ends in a fallback, at the old
version or at the current one. -/
theorem exists_parse_of_edit {raw : String} {m edited : Mapping} {e : Edit}
    (hparse : parse raw = .ok m) (h : m.edit e = .ok edited) :
    ∃ text, edited.toText = .ok text ∧ ∃ m', parse text = .ok m' ∧ m'.same edited = true ∧
      m'.endsInFallback = true ∧ (m'.version = m.version ∨ m'.version = currentVersion) := by
  obtain ⟨text, htext, m', hm', hsame⟩ := ((storable_of_parse hparse).edit h).exists_parse
  refine ⟨text, htext, m', hm', hsame, ?_, ?_⟩
  · rw [endsInFallback_of_same hsame]
    exact endsInFallback_of_edit h
  · rw [version_of_same hsame]
    exact version_of_edit h

end Mapping

end StagedRollout
