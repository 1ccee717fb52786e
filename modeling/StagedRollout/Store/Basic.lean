/-
# StagedRollout.Store.Basic -- the channel file

Channels are kept in one file that holds an array of their records. Every access reads the
whole file, and every change writes the whole file again in the indented layout. Channels are
found by name when they are asked for and by id when their mapping is replaced; of several the
first one counts.

The state of the store is the text of the file, or nothing when there is no file that could be
read. Each access is one step: `fetch` looks at a state, `replaceMapping` leads to a new one.
-/
import StagedRollout.Channel.Basic

namespace StagedRollout

/-- The text of the channel file, if it can be read. -/
abbrev ChannelFile := Option String

/-- Why the store cannot do what it is asked for. -/
inductive StoreError
  /-- The file cannot be read. -/
  | noFile
  /-- The file is not an array of channel records. -/
  | unreadable (cause : ReadError)
  /-- No channel has the name or id. -/
  | channelNotFound (key : String)

/-- The path of the channel file when none is named. -/
def defaultStore : String := "channels.json"

namespace StoreError

/-- What is said of a file that cannot be read. The reason that the system gives is not kept. -/
def unreadableFile : String := "the file cannot be read"

/-- The wording of a store error about the file at a path. -/
def message (e : StoreError) (path : String := defaultStore) : String :=
  match e with
  | .noFile => "io error on " ++ path ++ ": " ++ unreadableFile
  | .unreadable cause => "invalid channel file " ++ path ++ ": " ++ cause.message
  | .channelNotFound key => "channel not found: " ++ key

/-- The wording of what caused a store error, where something below the store did. -/
def cause? : StoreError → Option String
  | .noFile => some unreadableFile
  | .unreadable cause => some cause.message
  | .channelNotFound _ => none

end StoreError

/-! ## The channels of a file -/

/-- Reads the channels of a text. -/
def readChannels (text : String) : ReadResult (List Channel) :=
  readWhole (readList Channel.read) text

/-- The text of channels. -/
def channelsText (channels : List Channel) : String :=
  (Json.array (channels.map Channel.toJson)).indented

/-- Gives the first channel of an id another mapping; yields that channel and all channels. -/
def replaceMappingIn (update : MappingUpdate) : List Channel → Option (Channel × List Channel)
  | [] => none
  | c :: rest =>
    if c.id = update.channelId then
      let replaced := { c with mappingText := update.mappingText }
      some (replaced, replaced :: rest)
    else (fun (replaced, rest) => (replaced, c :: rest)) <$> replaceMappingIn update rest

namespace ChannelFile

/-- The channels of a file. -/
def load (file : ChannelFile) : Except StoreError (List Channel) :=
  match file with
  | none => .error .noFile
  | some text =>
    match readChannels text with
    | .ok channels => .ok channels
    | .error cause => .error (.unreadable cause)

/-- The first channel of a name. -/
def fetch (file : ChannelFile) (name : String) : Except StoreError Channel := do
  let channels ← file.load
  match channels.find? (·.name = name) with
  | some c => return c
  | none => .error (.channelNotFound name)

/-- Replaces the mapping of a channel; yields the channel as it is then, and the new file. -/
def replaceMapping (file : ChannelFile) (update : MappingUpdate) :
    Except StoreError (Channel × ChannelFile) := do
  let channels ← file.load
  match replaceMappingIn update channels with
  | some (replaced, channels) => return (replaced, some (channelsText channels))
  | none => .error (.channelNotFound update.channelId)

end ChannelFile

end StagedRollout
