/-
# StagedRollout.Mapping.Text -- the wire form of a mapping

    {"version":0, "data":[{"branchId":"B1", "branchMappingLogic":"true"}]}

The mapping and its entries may also be written as arrays of their fields in this order; they
are always written as objects.
-/
import StagedRollout.Mapping.Basic

namespace StagedRollout

/-! ## Writing -/

/-- The wire form of an entry. -/
def Entry.toJson (entry : Entry) : Written := do
  let logic ← entry.logic.toJson
  return .object [("branchId", .text entry.branchId), ("branchMappingLogic", logic)]

/-- The wire forms of entries in order. -/
def entriesToJson : List Entry → Except Unwritable (List Json)
  | [] => .ok []
  | entry :: rest => do
    let json ← entry.toJson
    let jsons ← entriesToJson rest
    return json :: jsons

/-- The wire form of a mapping. -/
def Mapping.toJson (m : Mapping) : Written := do
  let entries ← entriesToJson m.entries
  return .object [("version", .int m.version.toNat), ("data", .array entries)]

/-! ## Reading entries -/

/-- What has been read of an entry. -/
structure EntryDraft where
  branchId : Option String
  logic : Option Node

namespace EntryDraft

/-- Nothing has been read. -/
def empty : EntryDraft := ⟨none, none⟩

/-- Reads one member of an entry object. -/
def take (room : Nat) (draft : EntryDraft) (key : String) (value : Outline) :
    ReadResult EntryDraft :=
  match key with
  | "branchId" => do
    let branchId ← readOnce key draft.branchId fun _ => readText value
    return { draft with branchId }
  | "branchMappingLogic" => do
    let logic ← readOnce key draft.logic fun _ => Node.read room value
    return { draft with logic }
  | _ => skipMember draft value

/-- The entry, if no field is missing. -/
def finish (draft : EntryDraft) : ReadResult Entry := do
  let branchId ← required "branchId" draft.branchId
  let logic ← required "branchMappingLogic" draft.logic
  return { branchId, logic }

end EntryDraft

namespace Entry

/-- Reads an entry in either form. -/
def read (room : Nat) : Outline → ReadResult Entry
  | .object members => opening room fun room => do
    let draft ← members.gather (EntryDraft.take room) .empty
    draft.finish
  | .array items => opening room fun room => do
    let expected := "struct BranchMappingEntry with 2 elements"
    let (branchId, items) ← items.next 0 expected readText
    let (logic, items) ← items.next 1 expected (Node.read room)
    items.finish
    return { branchId, logic }
  | outline => outline.refuse "struct BranchMappingEntry"

end Entry

/-! ## Reading mappings -/

/-- What has been read of a mapping. -/
structure MappingDraft where
  version : Option UInt32
  entries : Option (List Entry)

namespace MappingDraft

/-- Nothing has been read. -/
def empty : MappingDraft := ⟨none, none⟩

/-- Reads one member of a mapping object. -/
def take (room : Nat) (draft : MappingDraft) (key : String) (value : Outline) :
    ReadResult MappingDraft :=
  match key with
  | "version" => do
    let version ← readOnce key draft.version fun _ => readWord value
    return { draft with version }
  | "data" => do
    let entries ← readOnce key draft.entries fun _ => readList Entry.read room value
    return { draft with entries }
  | _ => skipMember draft value

/-- The mapping, if no field is missing. -/
def finish (draft : MappingDraft) : ReadResult Mapping := do
  let version ← required "version" draft.version
  let entries ← required "data" draft.entries
  return { version, entries }

end MappingDraft

namespace Mapping

/-- Reads a mapping in either form. -/
def read (room : Nat) : Outline → ReadResult Mapping
  | .object members => opening room fun room => do
    let draft ← members.gather (MappingDraft.take room) .empty
    draft.finish
  | .array items => opening room fun room => do
    let expected := "struct BranchMapping with 2 elements"
    let (version, items) ← items.next 0 expected readWord
    let (entries, items) ← items.next 1 expected (readList Entry.read room)
    items.finish
    return { version, entries }
  | outline => outline.refuse "struct BranchMapping"

end Mapping

end StagedRollout
