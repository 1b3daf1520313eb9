import Pipeworks.Command.Execute
import Pipeworks.Command.Path
import Pipeworks.Config.Outline

/-!
# The command line

Reads what the arguments name, executes the command on it, and writes what came
of it. A run is executed anew whenever there is more input: what it writes for
the lines so far does not change, and only what is new is shown.
-/

namespace Pipeworks.CommandLine

open Command

def usage : String := unlines [
  "Declarative component pipelines",
  "",
  "Usage: woodwork [OPTIONS] <COMMAND>",
  "",
  "Commands:",
  "  check [--compact] [FILE]     write the document as JSON",
  "  plan [FILE]                  show how the document would be brought up",
  "  run [--json] [-q] [FILE]     run the document",
  "  help                         show this help",
  "",
  "Options:",
  "  --workers <N>                components brought up in parallel at once",
  "  --sequential                 run without the message bus",
  "  --exit-token <TEXT>          the input that ends a run",
  "  --json-logs                  write logs as JSON",
  "  -h, --help                   show this help",
  "  -V, --version                show the version"]

/-- What is said about arguments that lead nowhere. -/
def complaint : UsageProblem → String
  | .unknownArgument => "unexpected argument"
  | .unknownCommand => "unrecognized subcommand"
  | .missingValue => "a value is required"
  | .malformedValue => "invalid value"
  | .unneededValue => "unexpected value"
  | .repeated => "an argument cannot be used multiple times"
  | .missingCommand => "a subcommand is required"
  | .nothing | .help | .version => ""

/-- Show what is wrong with the arguments, or what was asked for. -/
def showUsage (p : UsageProblem) : IO UInt32 := do
  match p with
  | .help => IO.print usage; return 0
  | .version => IO.println "woodwork 0.1.0"; return 0
  | .nothing => IO.eprint usage; return 2
  | p => IO.eprintln ("error: " ++ complaint p ++ "\n\n" ++ usage); return 2

/-- What is found under the name of a file. -/
def find (file : String) : IO Found := do
  try
    let bytes ← IO.FS.readBinFile file
    match String.fromUTF8? bytes with
    | some s => return .text s
    | none => return .unreadable Console.garbledText
  catch e =>
    match e with
    | .noFileOrDirectory .. => return .missing
    | .inappropriateType _ 20 _ => return .missing
    | .inappropriateType _ 21 _ => return .unreadable "Is a directory (os error 21)"
    | .permissionDenied _ code _ =>
      return .unreadable ("Permission denied (os error " ++ toString code ++ ")")
    | e => return .unreadable (toString e)

/-- The variables that a text mentions. -/
def mentioned (s : String) : List String :=
  match Config.parse s with
  | .ok ds => ds.flatMap fun d => d.block.outline.leaves.filterMap fun v =>
      match v with
      | .variable name => some name
      | _ => none
  | .error _ => []

/-- The environment as far as it matters. -/
def environment (found : Found) : IO Config.Environment := do
  let more := match found with
    | .text s => mentioned s
    | _ => []
  let pairs ← (["WOODWORK_WORKERS", "WOODWORK_EXIT_TOKEN", "WOODWORK_MODE"] ++ more).filterMapM
    fun name => return (← IO.getEnv name).map fun value => (name, value)
  return .ofList pairs

/-- The bytes up to the end of the last line. -/
def wholeLines (bytes : List UInt8) : List UInt8 :=
  (bytes.reverse.dropWhile (· != Terminal.newline)).reverse

/-- Write what is new. -/
def showNew (i : Invocation) (r : Report) (written aside : Nat) : IO Unit := do
  (← IO.getStderr).putStr (String.ofList (r.asides.toList.drop aside))
  (← IO.getStderr).flush
  (← IO.getStdout).putStr (String.ofList (r.output.toList.drop written))
  (← IO.getStdout).flush
  if aside = 0 ∧ ¬ i.flags.contains .quiet then
    let names := (r.updates.map (·.component)).eraseDups
    let t := r.updates.foldl Tracker.take (Tracker.ofNames names)
    if !names.isEmpty then IO.eprintln ("  Started  " ++ progressBar t.aggregate)

/-- Execute a run on all input there will be; `seen` was read so far. -/
partial def converse (i : Invocation) (execute : Invocation → List UInt8 → Report)
    (seen : List UInt8) (written aside : Nat) : IO Report := do
  let bytes ← (← IO.getStdin).read 65536
  let seen := seen ++ bytes.toList
  let r := execute i (if bytes.isEmpty then seen else wholeLines seen)
  let waits := !bytes.isEmpty && (r.summary.map (·.exit)) == some .inputExhausted
  if waits then
    let r := execute { i with flags := i.flags.filter (· != .json) } (wholeLines seen)
    showNew i r written aside
    converse i execute seen r.output.length r.asides.length
  else
    showNew i r written aside
    return r

/-- Execute a command. -/
def execute (i : Invocation) : IO UInt32 := do
  let found ← find i.file
  let env ← environment found
  if !isDocumentPath i.file then IO.eprintln ("warning: " ++ i.file ++ " does not end in .ww")
  let session := Text.identifier "00000000" (← IO.monoMsNow)
  let begun ← IO.monoMsNow
  let r ←
    if i.action = .run then
      converse i (fun i input => i.execute env found session input) [] 0 0
    else
      let r := i.execute env found session []
      showNew i r 0 0
      pure r
  match r.outcome with
  | .error f => IO.eprintln ("Error: " ++ f.message); return 1
  | .ok () =>
    match r.summary with
    | none => return 0
    | some s =>
      IO.eprintln ("\n  Finished in " ++ duration ((← IO.monoMsNow) - begun) ++ ":")
      for line in s.lines do IO.eprintln ("    " ++ line)
      return 0

end Pipeworks.CommandLine

def main (args : List String) : IO UInt32 :=
  match Pipeworks.Command.Invocation.ofArguments args with
  | .error p => Pipeworks.CommandLine.showUsage p
  | .ok i => Pipeworks.CommandLine.execute i
