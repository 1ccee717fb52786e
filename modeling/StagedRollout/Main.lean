/-
# StagedRollout.Main -- the program

Reads the arguments, runs the command on the file at the given path, and prints the result, or what
went wrong with everything that caused it. Nothing else is decided here.
-/
import StagedRollout.CommandLine
import StagedRollout.Store.Access

namespace StagedRollout

/-- What the program says of itself when it is asked for help. -/
def helpText : String :=
  String.intercalate "\n" [
    "Inspect and edit branch-mapping rollouts of update channels",
    "",
    "Usage: ota-rollout [OPTIONS] <COMMAND>",
    "",
    "Commands:",
    "  classify  Report whether the channel carries a rollout",
    "  info      Show the rollout joined with its branches",
    "  insert    Add a rollout scoped to one runtime version",
    "  edit      Change the rollout percent",
    "  end       End a rollout, or drop the one scoped to a runtime version",
    "  help      Print this message or the help of the given subcommand(s)",
    "",
    "Options:",
    "      --store <store>  JSON file holding the channel records [default: "
      ++ defaultStore ++ "]",
    "      --write          Persist the edited branch mapping back to the store",
    "  -v, --verbose        Enable debug logging on stderr",
    "  -h, --help           Print help",
    "  -V, --version        Print version"]

/-- The name and the version of the program. -/
def versionText : String := "ota-rollout 0.1.0"

/-- The wording of an error in the arguments. It is the same for all errors of a kind. -/
def UsageError.message : UsageError → String
  | .missingCommand => "a subcommand is required but one was not provided"
  | .unknownCommand => "unrecognized subcommand"
  | .missingArgument => "one or more required arguments were not provided"
  | .unknownArgument => "unexpected argument found"
  | .conflict => "an argument cannot be used with one or more of the other specified arguments"
  | .invalidValue => "one of the values isn't valid for an argument"
  | .rejectedValue => "invalid value for one of the arguments"
  | .unwantedValue => "unexpected value for an argument found"
  | .helpWanted => helpText
  | .versionWanted => versionText

/-- The lines below a failure that tell its causes, numbered if there are several. What goes on over
a line break is indented as far as its first line. -/
def causeLines : List String → List String
  | [] => []
  | [cause] => ["", "Caused by:", "    " ++ cause.replace "\n" "\n    "]
  | causes =>
    "" :: "Caused by:" :: causes.mapIdx fun i cause =>
      "    " ++ String.ofList (digitsOf i) ++ ": " ++ cause.replace "\n" "\n       "

/-- What is printed of a failed command on the file at a path. -/
def CommandError.report (e : CommandError) (path : String) : String :=
  let messages := e.messages path
  "Error: " ++ String.intercalate "\n" (messages.take 1 ++ causeLines (messages.drop 1))

/-- The text of a file, if it can be read. -/
def readFile? (path : String) : IO (Option String) := do
  try
    return some (← IO.FS.readFile path)
  catch _ =>
    return none

/-- The file at a path. -/
def FileAccess.atPath (path : String) : FileAccess IO where
  read := readFile? path
  write := IO.FS.writeFile path

/-- Runs one command. -/
def runInvocation (invocation : Invocation) : IO UInt32 := do
  match ← ((FileAccess.atPath invocation.store).execute invocation).run with
  | .error e => do
    IO.eprintln (e.report invocation.store)
    return 1
  | .ok output => do
    IO.println output.sorted.indented
    return 0

end StagedRollout

open StagedRollout in
/-- The entry point. -/
def main (arguments : List String) : IO UInt32 := do
  match Invocation.ofArguments arguments with
  | .ok invocation => runInvocation invocation
  | .error e => do
    if e = .helpWanted ∨ e = .versionWanted then
      IO.println e.message
      return 0
    else
      IO.eprintln ("error: " ++ e.message)
      return 2
