/-
# StagedRollout.Channel.Branch -- branches

A branch is known by its id. Its record has a name and may have any other fields, of which
nothing is known but that they have to be kept: they are held in ascending order of their
keys, the last of several with one key, and are written behind the two known fields.
-/
import StagedRollout.Wire.Reader

namespace StagedRollout

/-- A branch that clients can be routed to. -/
structure Branch where
  id : String
  name : String
  extra : List (String × Json)
deriving Inhabited

namespace Branch

/-- The members of a branch's record, in the order in which they are written. -/
def members (b : Branch) : List (String × Json) :=
  ("id", .text b.id) :: ("name", .text b.name) :: b.extra

/-- The JSON form of a branch. -/
def toJson (b : Branch) : Json := .object b.members

end Branch

/-! ## Reading -/

/-- What has been read of a branch. -/
structure BranchDraft where
  id : Option String
  name : Option String
  extra : List (String × Json)

namespace BranchDraft

/-- Nothing has been read. -/
def empty : BranchDraft := ⟨none, none, []⟩

/-- Reads one member of a branch. A member of no known name is read in full and kept. -/
def take (room : Nat) (draft : BranchDraft) (key : String) (value : Outline) :
    ReadResult BranchDraft :=
  match key with
  | "id" => do
    let id ← readOnce key draft.id fun _ => readText value
    return { draft with id }
  | "name" => do
    let name ← readOnce key draft.name fun _ => readText value
    return { draft with name }
  | _ => do
    let json ← ReadResult.ofText (value.read room)
    return { draft with extra := insertMember key json draft.extra }

/-- The branch, if no field is missing. -/
def finish (draft : BranchDraft) : ReadResult Branch := do
  let id ← required "id" draft.id
  let name ← required "name" draft.name
  return { id, name, extra := draft.extra }

end BranchDraft

namespace Branch

/-- Reads a branch. -/
def read (room : Nat) : Outline → ReadResult Branch
  | .object members => opening room fun room => do
    let draft ← members.gather (BranchDraft.take room) .empty
    draft.finish
  | outline => outline.refuse "struct UpdateBranch"

end Branch

end StagedRollout
