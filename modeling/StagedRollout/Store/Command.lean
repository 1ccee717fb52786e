/-
# StagedRollout.Store.Command -- commands on the channel file

A command names a channel and asks for a report on it or for an edit of its mapping. It takes
two steps at the store. First the channel is fetched; what the command comes to is computed
from that channel alone, by `Channel.respond`. If that is an edit and writing is wanted, the
update is then handed to the store. A command that fails leaves the file alone.
-/
import StagedRollout.Store.Basic
import StagedRollout.Channel.Rollout
import StagedRollout.Rollout.Edit

namespace StagedRollout

/-- What is wanted of a channel. -/
inductive Command
  /-- Which kind of rollout the channel carries, if any. -/
  | classify
  /-- The rollout with its branches. -/
  | info
  /-- A change of its mapping. -/
  | edit (e : Edit)
deriving DecidableEq

/-- A command with its circumstances. -/
structure Invocation where
  /-- The path of the channel file. -/
  store : String
  /-- The name of the channel. -/
  channel : String
  /-- Whether an edited mapping is handed to the store. -/
  write : Bool
  /-- Whether the run is to be logged. -/
  verbose : Bool
  command : Command
deriving DecidableEq

/-- Why a command fails. -/
inductive CommandError
  | fetch (channel : String) (cause : StoreError)
  | update (channel : String) (cause : StoreError)
  | rollout (cause : RolloutError)

namespace CommandError

/-- What was being done when the store failed. -/
def context? : CommandError → Option String
  | .fetch channel _ => some ("failed to fetch channel '" ++ channel ++ "'")
  | .update channel _ => some ("failed to update channel '" ++ channel ++ "'")
  | .rollout _ => none

/-- The wordings of a failure on the file at a path: what was being done, if the store failed, and
what went wrong, each of them caused by the next. -/
def messages (e : CommandError) (path : String) : List String :=
  e.context?.toList ++
    match e with
    | .fetch _ cause | .update _ cause => cause.message path :: cause.cause?.toList
    | .rollout cause => [cause.message]

end CommandError

/-! ## What a command comes to -/

/-- The outcome of a command on a channel. -/
inductive Response
  /-- Something to print. -/
  | report (json : Json)
  /-- A mapping to put in place of the present one. -/
  | change (update : MappingUpdate)

/-- Which kind of rollout a channel carries. -/
def Channel.classification (c : Channel) : Except RolloutError Json := do
  let m ← c.mapping
  let runtimeVersions ←
    if m.isRollout then RolloutInfo.runtimeVersions <$> m.rolloutInfo else .ok []
  return .object [("channel", .text c.name), ("isRollout", .bool m.isRollout),
    ("unconstrained", .bool m.isUnconstrained),
    ("runtimeVersions", .array (runtimeVersions.map .text))]

/-- What a command comes to for a channel. -/
def Channel.respond (c : Channel) : Command → Except RolloutError Response
  | .classify => .report <$> c.classification
  | .info => (fun rollout => .report rollout.toJson) <$> c.rollout
  | .edit e => do
    let m ← c.mapping
    let edited ← m.edit e
    let update ← MappingUpdate.of c.id edited
    return .change update

/-! ## Running commands -/

/-- What a command that succeeds prints, and the file that it leaves behind. -/
structure CommandResult where
  output : Json
  file : ChannelFile

/-- What is printed of an edit. -/
def updateReport (update : MappingUpdate) (written : Bool) : Json :=
  .object [("update", update.toJson), ("written", .bool written)]

/-- A failure of the rollout layer. -/
def CommandError.ofRollout : Except RolloutError α → Except CommandError α
  | .ok a => .ok a
  | .error cause => .error (.rollout cause)

namespace ChannelFile

/-- Carries a response out. -/
def settle (file : ChannelFile) (channelName : String) (write : Bool) :
    Response → Except CommandError CommandResult
  | .report json => .ok ⟨json, file⟩
  | .change update =>
    if write then
      match file.replaceMapping update with
      | .ok (_, file) => .ok ⟨updateReport update true, file⟩
      | .error cause => .error (.update channelName cause)
    else .ok ⟨updateReport update false, file⟩

/-- Runs a command. -/
def execute (file : ChannelFile) (invocation : Invocation) : Except CommandError CommandResult :=
  match file.fetch invocation.channel with
  | .error cause => .error (.fetch invocation.channel cause)
  | .ok c => do
    let response ← CommandError.ofRollout (c.respond invocation.command)
    file.settle c.name invocation.write response

/-- The file after a command: a command that fails leaves it as it was. -/
def after (file : ChannelFile) (invocation : Invocation) : ChannelFile :=
  match file.execute invocation with
  | .ok result => result.file
  | .error _ => file

/-- The file after a series of commands, each of which finds what the ones before it left. -/
def run (file : ChannelFile) (invocations : List Invocation) : ChannelFile :=
  invocations.foldl after file

end ChannelFile

/-- The text that is printed for a command: indented, all members in ascending order. -/
def CommandResult.text (result : CommandResult) : String := result.output.sorted.indented

end StagedRollout
