/-
# StagedRollout.Channel.Basic -- channels

A channel is what a client asks for. Its record carries the branch mapping as a text inside
the JSON, and the branches that the mapping may refer to. A `MappingUpdate` is the message
that replaces the mapping of a channel.

The mapping of a channel is read each time that it is needed, and it has to be of the current
version. Looking up a branch fails loudly: a mapping that refers to a branch that its channel
does not have is an error of whoever wrote it.
-/
import StagedRollout.Channel.Branch
import StagedRollout.Mapping.Error

namespace StagedRollout

/-- A channel with its branches. -/
structure Channel where
  id : String
  name : String
  /-- The text of the branch mapping. -/
  mappingText : String
  branches : List Branch
deriving Inhabited

/-- The replacement of a channel's branch mapping. -/
structure MappingUpdate where
  channelId : String
  /-- The text of the new branch mapping. -/
  mappingText : String
deriving DecidableEq, Inhabited

/-! ## The mapping of a channel -/

namespace Channel

/-- The branch mapping, which has to be of the current version. -/
def mapping (c : Channel) : Except RolloutError Mapping := do
  let m ← Mapping.parse c.mappingText
  m.checkVersion currentVersion
  return m

/-- The channel with another branch mapping. -/
def withMapping (c : Channel) (m : Mapping) : Except RolloutError Channel := do
  let mappingText ← m.toText
  return { c with mappingText }

/-- The first branch of an id. -/
def branch (c : Channel) (branchId : String) : Except RolloutError Branch :=
  match c.branches.find? (·.id = branchId) with
  | some b => .ok b
  | none => .error (.branchNotFound c.name branchId)

/-- The branch that a channel routes all clients to. -/
def standardBranch (c : Channel) : Except RolloutError String := do
  let m ← c.mapping
  match m.standardBranch? with
  | some branchId => return branchId
  | none => .error (.notStandardMapping c.name c.mappingText)

end Channel

/-- The message that gives a channel a branch mapping. -/
def MappingUpdate.of (channelId : String) (m : Mapping) : Except RolloutError MappingUpdate := do
  let mappingText ← m.toText
  return { channelId, mappingText }

/-! ## JSON forms -/

/-- The JSON form of a channel. -/
def Channel.toJson (c : Channel) : Json :=
  .object [("id", .text c.id), ("name", .text c.name), ("branchMapping", .text c.mappingText),
    ("branches", .array (c.branches.map Branch.toJson))]

/-- The JSON form of an update. -/
def MappingUpdate.toJson (u : MappingUpdate) : Json :=
  .object [("channelId", .text u.channelId), ("branchMapping", .text u.mappingText)]

/-! ## Reading channels -/

/-- What has been read of a channel. -/
structure ChannelDraft where
  id : Option String
  name : Option String
  mappingText : Option String
  branches : Option (List Branch)

namespace ChannelDraft

/-- Nothing has been read. -/
def empty : ChannelDraft := ⟨none, none, none, none⟩

/-- Reads one member of a channel object. -/
def take (room : Nat) (draft : ChannelDraft) (key : String) (value : Outline) :
    ReadResult ChannelDraft :=
  match key with
  | "id" => do
    let id ← readOnce key draft.id fun _ => readText value
    return { draft with id }
  | "name" => do
    let name ← readOnce key draft.name fun _ => readText value
    return { draft with name }
  | "branchMapping" => do
    let mappingText ← readOnce key draft.mappingText fun _ => readText value
    return { draft with mappingText }
  | "branches" => do
    let branches ← readOnce key draft.branches fun _ => readList Branch.read room value
    return { draft with branches }
  | _ => skipMember draft value

/-- The channel, if no field is missing. A channel without a list of branches has none. -/
def finish (draft : ChannelDraft) : ReadResult Channel := do
  let id ← required "id" draft.id
  let name ← required "name" draft.name
  let mappingText ← required "branchMapping" draft.mappingText
  return { id, name, mappingText, branches := draft.branches.getD [] }

end ChannelDraft

namespace Channel

/-- Reads a channel, as an object or as an array of its fields. -/
def read (room : Nat) : Outline → ReadResult Channel
  | .object members => opening room fun room => do
    let draft ← members.gather (ChannelDraft.take room) .empty
    draft.finish
  | .array items => opening room fun room => do
    let expected := "struct UpdateChannel with 4 elements"
    let (id, items) ← items.next 0 expected readText
    let (name, items) ← items.next 1 expected readText
    let (mappingText, items) ← items.next 2 expected readText
    match items with
    | .closed => return { id, name, mappingText, branches := [] }
    | items => do
      let (branches, items) ← items.next 3 expected (readList Branch.read room)
      items.finish
      return { id, name, mappingText, branches }
  | outline => outline.refuse "struct UpdateChannel"

end Channel

/-! ## Reading updates -/

/-- What has been read of an update. -/
structure UpdateDraft where
  channelId : Option String
  mappingText : Option String

namespace UpdateDraft

/-- Nothing has been read. -/
def empty : UpdateDraft := ⟨none, none⟩

/-- Reads one member of an update object. -/
def take (draft : UpdateDraft) (key : String) (value : Outline) : ReadResult UpdateDraft :=
  match key with
  | "channelId" => do
    let channelId ← readOnce key draft.channelId fun _ => readText value
    return { draft with channelId }
  | "branchMapping" => do
    let mappingText ← readOnce key draft.mappingText fun _ => readText value
    return { draft with mappingText }
  | _ => skipMember draft value

/-- The update, if no field is missing. -/
def finish (draft : UpdateDraft) : ReadResult MappingUpdate := do
  let channelId ← required "channelId" draft.channelId
  let mappingText ← required "branchMapping" draft.mappingText
  return { channelId, mappingText }

end UpdateDraft

namespace MappingUpdate

/-- Reads an update, as an object or as an array of its fields. -/
def read (room : Nat) : Outline → ReadResult MappingUpdate
  | .object members => opening room fun _ => do
    let draft ← members.gather UpdateDraft.take .empty
    draft.finish
  | .array items => opening room fun _ => do
    let expected := "struct BranchMappingUpdate with 2 elements"
    let (channelId, items) ← items.next 0 expected readText
    let (mappingText, items) ← items.next 1 expected readText
    items.finish
    return { channelId, mappingText }
  | outline => outline.refuse "struct BranchMappingUpdate"

end MappingUpdate

end StagedRollout
