/-
# StagedRollout.Store.Access -- commands that access the file

A command reads the whole file to fetch its channel. An edit that is to be written reads it again,
to find the first channel of the id, and then writes it; this is the only write, and nothing comes
behind it but the report. The functions here are those of `ChannelFile` as series of accesses, in
any monad in which a file can be read and written.
-/
import StagedRollout.Store.Command

namespace StagedRollout

/-- The ways to get at the channel file. -/
structure FileAccess (m : Type → Type) where
  /-- The text of the file, if it can be read. -/
  read : m ChannelFile
  /-- Puts a text in place of the file. -/
  write : String → m Unit

namespace FileAccess

variable {m : Type → Type} [Monad m] (file : FileAccess m)

/-- Reads the channels. -/
def load : ExceptT StoreError m (List Channel) := do
  let found ← file.read
  ExceptT.mk (return found.load)

/-- Looks up the first channel of a name. -/
def fetch (name : String) : ExceptT StoreError m Channel := do
  let channels ← file.load
  match channels.find? (·.name = name) with
  | some c => return c
  | none => throw (.channelNotFound name)

/-- Writes the file with the mapping of a channel replaced; yields the channel as it is then. -/
def replaceMapping (update : MappingUpdate) : ExceptT StoreError m Channel := do
  let channels ← file.load
  match replaceMappingIn update channels with
  | some (replaced, channels) =>
    file.write (channelsText channels)
    return replaced
  | none => throw (.channelNotFound update.channelId)

/-- Runs a command; yields what is to be printed. -/
def execute (invocation : Invocation) : ExceptT CommandError m Json := do
  let c ← (file.fetch invocation.channel).adapt (.fetch invocation.channel)
  match c.respond invocation.command with
  | .error cause => throw (.rollout cause)
  | .ok (.report json) => return json
  | .ok (.change update) =>
    if invocation.write then
      let _ ← (file.replaceMapping update).adapt (.update c.name)
    return updateReport update invocation.write

end FileAccess

end StagedRollout
