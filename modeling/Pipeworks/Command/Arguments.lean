import Pipeworks.Settings.RunConfig

/-!
# Arguments

The arguments name a command and its file, and may carry flags and settings
before and after the command. An argument that begins with a hyphen is an option;
after a bare `--` it is not. A setting takes its value from the rest of its
argument after an equals sign, or else from the next argument that is no option.

A value is looked at only when the next option or file comes, or at the end; so
an option that is not known is reported before a malformed value in front of it.
-/

namespace Pipeworks.Command

/-- What can be done with a document. -/
inductive Action where
  | check
  | plan
  | run
  deriving DecidableEq, Repr

def Action.name : Action → String
  | .check => "check"
  | .plan => "plan"
  | .run => "run"

/-- The action of a name. -/
def Action.ofName? (s : String) : Option Action :=
  [Action.check, .plan, .run].find? (·.name == s)

/-- The command that shows what there is. -/
def helpName : String := "help"

/-- Why arguments do not lead to an action. -/
inductive UsageProblem where
  | unknownArgument
  | unknownCommand
  | missingValue
  | malformedValue
  | unneededValue
  | repeated
  | missingCommand
  /-- There are no arguments at all. -/
  | nothing
  /-- Help was asked for. -/
  | help
  /-- The version was asked for. -/
  | version
  deriving DecidableEq, Repr

/-- An option without a value. -/
inductive Flag where
  | sequential
  | jsonLogs
  | compact
  | json
  | quiet
  deriving DecidableEq, Repr

/-- An option with a value. -/
inductive Setting where
  | workers
  | exitToken
  deriving DecidableEq, Repr

/-- What an option stands for. -/
inductive Meaning where
  | flag (f : Flag)
  | setting (s : Setting)
  | help
  | version
  deriving DecidableEq, Repr

/-- The meaning of a long name, before the command or after it. -/
def longMeaning? (action : Option Action) (name : String) : Option Meaning :=
  match name, action with
  | "workers", _ => some (.setting .workers)
  | "exit-token", _ => some (.setting .exitToken)
  | "sequential", _ => some (.flag .sequential)
  | "json-logs", _ => some (.flag .jsonLogs)
  | "help", _ => some .help
  | "version", none => some .version
  | "compact", some .check => some (.flag .compact)
  | "json", some .run => some (.flag .json)
  | "quiet", some .run => some (.flag .quiet)
  | _, _ => none

/-- The meaning of a letter, before the command or after it. -/
def shortMeaning? (action : Option Action) (letter : Char) : Option Meaning :=
  match letter, action with
  | 'h', _ => some .help
  | 'V', none => some .version
  | 'q', some .run => some (.flag .quiet)
  | _, _ => none

/-- An argument by its form. -/
inductive Form where
  | separator
  | long (name : String) (value : Option String)
  | short (letters : List Char)
  | plain
  deriving DecidableEq, Repr

/-- The form of an argument. -/
def Form.of (s : String) : Form :=
  match s.toList with
  | ['-', '-'] => .separator
  | '-' :: '-' :: cs =>
    let name := cs.takeWhile (· != '=')
    .long (String.ofList name)
      (if name.length = cs.length then none else some (String.ofList (cs.drop (name.length + 1))))
  | ['-'] => .plain
  | '-' :: letters => .short letters
  | _ => .plain

/-- What the arguments before a command, or those after it, say. -/
structure Gathered where
  flags : List Flag
  workers : Option Nat
  exitToken : Option String
  file : Option String
  /-- A setting whose value was not looked at, or is still to come. -/
  pending : Option (Setting × Option String)
  deriving Repr

namespace Gathered

def empty : Gathered := ⟨[], none, none, none, none⟩

/-- Whether no option was given. -/
def isEmpty (g : Gathered) : Bool :=
  g.flags.isEmpty && g.workers.isNone && g.exitToken.isNone

/-- Give a setting its value, once. -/
def assign (g : Gathered) (s : Setting) (value : String) : Except UsageProblem Gathered :=
  match s with
  | .workers =>
    if g.workers.isSome then .error .repeated
    else
      match RunConfig.count? value with
      | none => .error .malformedValue
      | some n => .ok { g with workers := some n }
  | .exitToken =>
    if g.exitToken.isSome then .error .repeated else .ok { g with exitToken := some value }

/-- Look at the value that was not looked at. -/
def settle (g : Gathered) : Except UsageProblem Gathered :=
  match g.pending with
  | none => .ok g
  | some (_, none) => .error .missingValue
  | some (s, some value) => { g with pending := none }.assign s value

/-- The setting that waits for its value. -/
def awaiting? (g : Gathered) : Option Setting :=
  match g.pending with
  | some (s, none) => some s
  | _ => none

/-- Raise a flag, once. -/
def raise (g : Gathered) (f : Flag) : Except UsageProblem Gathered := do
  let g ← g.settle
  if g.flags.contains f then .error .repeated else .ok { g with flags := f :: g.flags }

/-- Show something instead of going on. -/
def divert (g : Gathered) (p : UsageProblem) : Except UsageProblem Gathered := do
  let _ ← g.settle
  .error p

/-- Take an option of a long name. -/
def takeLong (action : Option Action) (g : Gathered) (name : String) (value : Option String) :
    Except UsageProblem Gathered :=
  match longMeaning? action name, value with
  | none, _ => .error .unknownArgument
  | some (.setting s), some value => do
    let g ← g.settle
    g.assign s value
  | some (.setting s), none => do
    let g ← g.settle
    .ok { g with pending := some (s, none) }
  | some _, some _ => .error .unneededValue
  | some (.flag f), none => g.raise f
  | some .help, none => g.divert .help
  | some .version, none => g.divert .version

/-- Take options of one letter each. -/
def takeShort (action : Option Action) (g : Gathered) : List Char → Except UsageProblem Gathered
  | [] => .ok g
  | c :: rest =>
    match shortMeaning? action c with
    | some (.flag f) => do
      let g ← g.raise f
      g.takeShort action rest
    | some .help => g.divert .help
    | some .version => g.divert .version
    | _ => .error .unknownArgument

/-- Take the file, once. -/
def takeFile (g : Gathered) (file : String) : Except UsageProblem Gathered :=
  if g.file.isSome then .error .unknownArgument
  else do
    let g ← g.settle
    .ok { g with file := some file }

/-- Take the arguments after a command; after a separator all of them are files. -/
def takeAll (action : Action) (g : Gathered) (separated : Bool) :
    List String → Except UsageProblem Gathered
  | [] => g.settle
  | a :: rest =>
    if separated then do
      let g ← g.takeFile a
      g.takeAll action true rest
    else
      match Form.of a, g.awaiting? with
      | .separator, _ => g.takeAll action true rest
      | .long name value, _ => do
        let g ← g.takeLong (some action) name value
        g.takeAll action false rest
      | .short letters, _ => do
        let g ← g.takeShort (some action) letters
        g.takeAll action false rest
      | .plain, some s => { g with pending := some (s, some a) }.takeAll action false rest
      | .plain, none => do
        let g ← g.takeFile a
        g.takeAll action false rest

end Gathered

/-- What arguments ask for. -/
structure Invocation where
  action : Action
  file : String
  workers : Option Nat
  exitToken : Option String
  flags : List Flag
  deriving Repr

/-- The file that is used if none is named. -/
def defaultFile : String := "main.ww"

/-- What the arguments before and after a command say together; those after it
win. -/
def Invocation.merge (before : Gathered) (action : Action) (after : Gathered) : Invocation where
  action
  file := after.file.getD defaultFile
  workers := after.workers <|> before.workers
  exitToken := after.exitToken <|> before.exitToken
  flags := before.flags ++ after.flags

/-- Help on the command of some names. -/
def helpOn : List String → UsageProblem
  | [] => .help
  | [s] => if s = helpName ∨ (Action.ofName? s).isSome then .help else .unknownCommand
  | _ => .unknownCommand

/-- Take all arguments; `before` are those gathered so far. -/
def Invocation.take (before : Gathered) (separated : Bool) :
    List String → Except UsageProblem Invocation
  | [] => do
    let before ← before.settle
    .error (if before.isEmpty then .nothing else .missingCommand)
  | a :: rest =>
    if separated then
      .error (if a = helpName ∨ (Action.ofName? a).isSome then .unknownArgument
        else .unknownCommand)
    else
      match Form.of a, before.awaiting? with
      | .separator, _ => Invocation.take before true rest
      | .long name value, _ => do
        let before ← before.takeLong none name value
        Invocation.take before false rest
      | .short letters, _ => do
        let before ← before.takeShort none letters
        Invocation.take before false rest
      | .plain, some s => Invocation.take { before with pending := some (s, some a) } false rest
      | .plain, none =>
        if a = helpName then .error (helpOn rest)
        else
          match Action.ofName? a with
          | none => .error .unknownCommand
          | some action => do
            let after ← Gathered.empty.takeAll action false rest
            let before ← before.settle
            .ok (Invocation.merge before action after)

/-- What arguments ask for. -/
def Invocation.ofArguments (args : List String) : Except UsageProblem Invocation :=
  Invocation.take Gathered.empty false args

end Pipeworks.Command
