/-
# StagedRollout.Mapping.Basic -- branch mappings

A branch mapping routes the clients of a channel: a version and a list of entries, each a
branch with the logic that selects it, tried in order. The simplest mapping that routes
everyone is the **standard** one, a single entry whose logic is always true.
-/
import StagedRollout.Mapping.Node

namespace StagedRollout

/-- A branch and the logic that selects it. -/
structure Entry where
  branchId : String
  logic : Node
deriving Inhabited

/-- The routing table of a channel. -/
structure Mapping where
  version : UInt32
  entries : List Entry
deriving Inhabited

/-- The one version that is understood. -/
def currentVersion : UInt32 := 0

/-- An entry that catches every client. -/
def Entry.isFallback (entry : Entry) : Bool := entry.logic.isAlwaysTrue

namespace Mapping

/-- A mapping of the current version. -/
def current (entries : List Entry) : Mapping := ⟨currentVersion, entries⟩

/-- The mapping without entries. -/
def empty : Mapping := current []

/-- The mapping that routes every client to one branch. -/
def standard (branchId : String) : Mapping := current [⟨branchId, .alwaysTrue⟩]

/-- The branches that a mapping refers to, entry by entry. -/
def branchIds (m : Mapping) : List String := m.entries.map Entry.branchId

/-- The branch of a mapping that consists of one entry whose logic is always true. -/
def standardBranch? (m : Mapping) : Option String :=
  match m.entries with
  | [entry] => if entry.isFallback then some entry.branchId else none
  | _ => none

/-- Routes every client to one branch by a single entry. -/
def isStandard (m : Mapping) : Bool := m.standardBranch?.isSome

/-- The first entry that catches every client; entries behind it are never reached. -/
def fallback? (m : Mapping) : Option Entry := m.entries.find? Entry.isFallback

/-- The last entry catches every client. -/
def endsInFallback (m : Mapping) : Bool := m.entries.getLast?.any Entry.isFallback

/-- Equality of entry lists, where numbers are compared as numbers. -/
def sameEntries : List Entry → List Entry → Bool
  | [], [] => true
  | a :: as, b :: bs => a.branchId = b.branchId && a.logic.same b.logic && sameEntries as bs
  | _, _ => false

/-- Equality of mappings, where numbers are compared as numbers. -/
def same (a b : Mapping) : Bool := a.version = b.version && sameEntries a.entries b.entries

end Mapping

end StagedRollout
