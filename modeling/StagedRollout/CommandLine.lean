/-
# StagedRollout.CommandLine -- the arguments of the program

The program has five commands. Each is given a channel and its own options; the options that
concern the store and the log may stand before or behind the command.

    classify CHANNEL
    info CHANNEL
    insert CHANNEL --branch ID --percent P --runtime-version V
    edit CHANNEL --percent P [--runtime-version V]
    end CHANNEL [--outcome revert|promote | --runtime-version V]

    anywhere: [--store FILE] [--write] [-v | --verbose] [-h | --help]
    before the command: [-V | --version]

Arguments are read from left to right on two **levels**, the program's and the command's, and
the first error decides. An option takes its value from behind an equals sign or from the next
argument, unless that one looks like an option itself. The value is judged when the next
argument has been recognised, or at the end: an argument that nobody knows is reported before
a bad value in front of it. A level admits each option and flag once. After the last argument
come the rules of the level as a whole, first what excludes each other, then what is missing.
-/
import StagedRollout.Store.Command

namespace StagedRollout

/-- Why no command is run: the arguments are wrong, or they ask for something else. -/
inductive UsageError
  | missingCommand
  | unknownCommand
  | missingArgument
  | unknownArgument
  /-- Two arguments that exclude each other, or one given twice. -/
  | conflict
  /-- An option without a value, or with one that is not in its list. -/
  | invalidValue
  /-- A percentage that is none. -/
  | rejectedValue
  /-- A value for a flag. -/
  | unwantedValue
  | helpWanted
  | versionWanted
deriving DecidableEq

/-! ## Commands, options and flags -/

/-- The commands by name. -/
inductive CommandName
  | classify
  | info
  | insert
  | edit
  | finish
deriving DecidableEq

/-- The command of a word. -/
def CommandName.ofWord? (word : String) : Option CommandName :=
  match word with
  | "classify" => some .classify
  | "info" => some .info
  | "insert" => some .insert
  | "edit" => some .edit
  | "end" => some .finish
  | _ => none

/-- The word that asks for help on a command, in the place of one. -/
def helpWord : String := "help"

/-- Options, which take a value. -/
inductive OptionName
  | store
  | branch
  | percent
  | runtimeVersion
  | outcome
deriving DecidableEq

/-- Flags, which take none. -/
inductive FlagName
  | write
  | verbose
  | help
  | version
deriving DecidableEq

/-- A level of arguments: before the command, or behind it. -/
inductive Level
  | program
  | command (name : CommandName)
deriving DecidableEq

/-- Whether a level admits an option. -/
def Level.admits : Level → OptionName → Bool
  | _, .store => true
  | .command .insert, .branch => true
  | .command .insert, .percent => true
  | .command .edit, .percent => true
  | .command .insert, .runtimeVersion => true
  | .command .edit, .runtimeVersion => true
  | .command .finish, .runtimeVersion => true
  | .command .finish, .outcome => true
  | _, _ => false

/-- The option of a name on a level. -/
def Level.option? (level : Level) (name : String) : Option OptionName :=
  let option? : Option OptionName :=
    match name with
    | "store" => some .store
    | "branch" => some .branch
    | "percent" => some .percent
    | "runtime-version" => some .runtimeVersion
    | "outcome" => some .outcome
    | _ => none
  option?.filter level.admits

/-- The flag of a name on a level. -/
def Level.flag? (level : Level) (name : String) : Option FlagName :=
  match name with
  | "write" => some .write
  | "verbose" => some .verbose
  | "help" => some .help
  | "version" => if level = .program then some .version else none
  | _ => none

/-- The flag of a letter on a level. -/
def Level.letter? (level : Level) (letter : Char) : Option FlagName :=
  match letter with
  | 'v' => some .verbose
  | 'h' => some .help
  | 'V' => if level = .program then some .version else none
  | _ => none

/-! ## What has been given on a level -/

/-- The arguments that a level has taken in. -/
structure Given where
  channel : Option String
  store : Option String
  branch : Option String
  percent : Option Percent
  runtimeVersion : Option String
  outcome : Option Outcome
  write : Bool
  verbose : Bool
  /-- The last option, as long as its value has not been judged; it may still lack one. -/
  pending : Option (OptionName × Option String)
deriving DecidableEq

namespace Given

/-- Nothing has been given. -/
def nothing : Given := ⟨none, none, none, none, none, none, false, false, none⟩

/-- The last option still lacks its value. -/
def awaitsValue (g : Given) : Bool :=
  match g.pending with
  | some (_, none) => true
  | _ => false

/-- Whether an option has been given a value. -/
def has (g : Given) : OptionName → Bool
  | .store => g.store.isSome
  | .branch => g.branch.isSome
  | .percent => g.percent.isSome
  | .runtimeVersion => g.runtimeVersion.isSome
  | .outcome => g.outcome.isSome

/-- The outcome of a word. -/
def outcomeOf? (word : String) : Option Outcome :=
  match word with
  | "revert" => some .revert
  | "promote" => some .promote
  | _ => none

/-- Judges the value of an option and takes it in. -/
def put (g : Given) (option : OptionName) (value : String) : Except UsageError Given :=
  if g.has option then .error .conflict
  else
    match option with
    | .store => if value = "" then .error .invalidValue else .ok { g with store := some value }
    | .branch => .ok { g with branch := some value }
    | .percent =>
      match Percent.ofText value with
      | .ok percent => .ok { g with percent := some percent }
      | .error _ => .error .rejectedValue
    | .runtimeVersion => .ok { g with runtimeVersion := some value }
    | .outcome =>
      match outcomeOf? value with
      | some outcome => .ok { g with outcome := some outcome }
      | none => .error .invalidValue

/-- Judges the last option if that is still to be done. -/
def settle (g : Given) : Except UsageError Given :=
  match g.pending with
  | none => .ok g
  | some (_, none) => .error .invalidValue
  | some (option, some value) => { g with pending := none }.put option value

/-- Takes in an option with what stands behind its equals sign, if anything does. -/
def takeOption (g : Given) (option : OptionName) (value : Option String) :
    Except UsageError Given := do
  let g ← g.settle
  match value with
  | some value => g.put option value
  | none => return { g with pending := some (option, none) }

/-- Takes in a flag. -/
def takeFlag (g : Given) (flag : FlagName) : Except UsageError Given := do
  let g ← g.settle
  match flag with
  | .help => .error .helpWanted
  | .version => .error .versionWanted
  | .write => if g.write then .error .conflict else .ok { g with write := true }
  | .verbose => if g.verbose then .error .conflict else .ok { g with verbose := true }

/-- Takes in flags that are given by their letters in one argument. -/
def takeLetters (level : Level) (g : Given) : List Char → Except UsageError Given
  | [] => .ok g
  | letter :: rest =>
    match level.letter? letter with
    | some flag => do
      let g ← g.takeFlag flag
      g.takeLetters level rest
    | none => .error .unknownArgument

/-- Takes in an argument that is neither an option, nor a flag, nor a value. Only a command
has a place for one, and that is the channel. -/
def takeWord (level : Level) (g : Given) (word : String) : Except UsageError Given :=
  match level with
  | .program => .error .unknownCommand
  | .command _ =>
    if g.channel.isSome then .error .unknownArgument
    else do
      let g ← g.settle
      return { g with channel := some word }

end Given

/-! ## Reading a level -/

/-- What an argument looks like. -/
inductive ArgumentForm
  /-- Two dashes alone: what follows is no option. -/
  | separator
  /-- Two dashes and a name, maybe an equals sign and a value. -/
  | long (name : String) (value : Option String)
  /-- One dash and letters. -/
  | letters (letters : List Char)
  | word
deriving DecidableEq

/-- A name and what stands behind the first equals sign. -/
def splitEquals (text : List Char) : String × Option String :=
  match text.dropWhile (· ≠ '=') with
  | [] => (String.ofList text, none)
  | _ :: value => (String.ofList (text.takeWhile (· ≠ '=')), some (String.ofList value))

/-- The form of an argument. A single dash is a word. -/
def ArgumentForm.of (argument : String) : ArgumentForm :=
  match argument.toList with
  | ['-', '-'] => .separator
  | '-' :: '-' :: text =>
    let (name, value) := splitEquals text
    .long name value
  | ['-'] => .word
  | '-' :: text => .letters text
  | _ => .word

/-- Takes in the arguments behind a separator. On the program's level a command's name cannot
be meant as a word either. -/
def readWords (level : Level) (g : Given) : List String → Except UsageError Given
  | [] => .ok g
  | word :: rest =>
    if level = .program ∧ (CommandName.ofWord? word ≠ none ∨ word = helpWord) then
      .error .unknownArgument
    else do
      let g ← g.takeWord level word
      readWords level g rest

/-- Help on a command, or on the program. -/
def readHelp : List String → UsageError
  | [] => .helpWanted
  | [word] =>
    if CommandName.ofWord? word ≠ none ∨ word = helpWord then .helpWanted else .unknownCommand
  | _ => .unknownCommand

/-- Takes in an argument that names no command. -/
def Given.takeArgument (level : Level) (g : Given) (argument : String) : Except UsageError Given :=
  match ArgumentForm.of argument with
  | .long name value =>
    match level.option? name with
    | some option => g.takeOption option value
    | none =>
      match level.flag? name, value with
      | some flag, none => g.takeFlag flag
      | some _, some _ => .error .unwantedValue
      | none, _ => .error .unknownArgument
  | .letters letters => g.takeLetters level letters
  | _ =>
    match g.pending with
    | some (option, none) => .ok { g with pending := some (option, some argument) }
    | _ => g.takeWord level argument

/-- The command that an argument names where it stands: a command is looked for only before
one has been found, and not where a value is expected. -/
def Given.commandWord? (level : Level) (g : Given) (argument : String) : Option CommandName :=
  if level = .program ∧ g.awaitsValue = false then CommandName.ofWord? argument else none

/-- Reads the arguments of a level. On the program's level that ends at a command; what
follows the command is left over. -/
def readLevel (level : Level) (g : Given) :
    List String → Except UsageError (Given × Option (CommandName × List String))
  | [] => .ok (g, none)
  | argument :: rest =>
    match g.commandWord? level argument with
    | some name => .ok (g, some (name, rest))
    | none =>
      if level = .program ∧ g.awaitsValue = false ∧ argument = helpWord then
        .error (readHelp rest)
      else if ArgumentForm.of argument = .separator then do
        let g ← readWords level g rest
        return (g, none)
      else do
        let g ← g.takeArgument level argument
        readLevel level g rest

/-! ## The invocation -/

/-- An argument that must not be missing. -/
def needed : Option α → Except UsageError α
  | some value => .ok value
  | none => .error .missingArgument

/-- The command that the arguments of its level make up. -/
def Given.command (g : Given) (name : CommandName) : Except UsageError Command :=
  if g.outcome.isSome ∧ g.runtimeVersion.isSome then .error .conflict
  else
    match name with
    | .classify => .ok .classify
    | .info => .ok .info
    | .insert => do
      let branchId ← needed g.branch
      let percent ← needed g.percent
      let runtimeVersion ← needed g.runtimeVersion
      return .edit (.insert branchId percent runtimeVersion)
    | .edit => do
      let percent ← needed g.percent
      match g.runtimeVersion with
      | some runtimeVersion => return .edit (.setPercentFor runtimeVersion percent)
      | none => return .edit (.setPercent percent)
    | .finish =>
      match g.runtimeVersion with
      | some runtimeVersion => .ok (.edit (.remove runtimeVersion))
      | none => .ok (.edit (.finish (g.outcome.getD .revert)))

/-- Reads the arguments of the program. What is given behind the command wins over what is
given before it. -/
def Invocation.ofArguments (arguments : List String) : Except UsageError Invocation := do
  let (before, found) ← readLevel .program .nothing arguments
  match found with
  | none => do
    let _ ← before.settle
    .error .missingCommand
  | some (name, rest) => do
    let (behind, _) ← readLevel (.command name) .nothing rest
    let behind ← behind.settle
    let command ← behind.command name
    let channel ← needed behind.channel
    let before ← before.settle
    return {
      store := (behind.store <|> before.store).getD defaultStore
      channel
      write := before.write || behind.write
      verbose := before.verbose || behind.verbose
      command }

end StagedRollout
