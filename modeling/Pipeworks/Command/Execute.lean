import Pipeworks.Command.Arguments
import Pipeworks.Command.Plan
import Pipeworks.Json.Printer
import Pipeworks.Run.Engine
import Pipeworks.Terminal.Builtin

/-!
# Executing a command

`check` writes the document as JSON, `plan` writes how it would be brought up, and
`run` runs it with the built-in components on a terminal. The configuration comes
from the environment first and from the arguments second; it is looked at before
the file is.
-/

namespace Pipeworks.Command

open Config

/-- What was found under the name of a file. -/
inductive Found where
  | missing
  | unreadable (problem : String)
  | text (s : String)
  deriving DecidableEq, Repr

/-- Why a command failed. -/
inductive Failure where
  | fault (e : Fault)
  | noWorkers
  | noFile (file : String)
  /-- A part of the program panicked. -/
  | panicked (text : String)
  deriving DecidableEq, Repr

/-- The message of a failure. -/
def Failure.message : Failure → String
  | .fault e => e.message
  | .noWorkers => "--workers must be at least 1"
  | .noFile file => "Configuration file not found: " ++ file
      ++ "\nCreate a .ww file or specify a path: woodwork run <file>"
  | .panicked text => text

/-- What a command leaves behind. -/
structure Report where
  /-- What it wrote to standard output. -/
  output : String
  /-- What its components wrote to standard error. -/
  asides : String
  /-- The progress made while components were brought up. -/
  updates : List Update
  /-- The summary of a run. -/
  summary : Option Summary
  outcome : Except Failure Unit

/-- The report of a command that only failed. -/
def Report.failure (f : Failure) : Report := ⟨"", "", [], none, .error f⟩

/-- The report of a command that only wrote. -/
def Report.text (s : String) : Report := ⟨s, "", [], none, .ok ()⟩

/-- Lines as one text. -/
def unlines (lines : List String) : String :=
  String.join (lines.map (· ++ "\n"))

namespace Invocation

/-- The configuration of a run. -/
def config (i : Invocation) (env : Environment) : Except Failure RunConfig := do
  let c ← (RunConfig.ofEnvironment env).mapError Failure.fault
  let c ← match i.workers with
    | none => .ok c
    | some 0 => .error Failure.noWorkers
    | some n => .ok { c with workers := n }
  return { c with
    exitToken := i.exitToken.getD c.exitToken
    mode := if i.flags.contains .sequential then some .sequential else c.mode }

/-- The document of what was found. -/
def document (i : Invocation) (env : Environment) : Found → Except Failure Graph
  | .missing => .error (.noFile i.file)
  | .unreadable problem => .error (.fault (.io i.file problem))
  | .text s => (load env s).mapError Failure.fault

/-- Write the document. -/
def check (i : Invocation) (g : Graph) : Report :=
  .text ((if i.flags.contains .compact then g.toJson.compact else g.toJson.pretty) ++ "\n")

/-- Write the plan of the document. -/
def plan (i : Invocation) (engine : Engine Terminal) (g : Graph) : Report :=
  let lines := do
    let settings ← engine.settings g
    let order ← g.order
    return planLines engine.registry i.file g order settings
  match lines with
  | .ok lines => .text (unlines lines)
  | .error e => .failure (.fault e)

/-- More steps than a run can take, `2 ^ 64`. -/
def maxSteps : Nat := 18446744073709551616

/-- Run the document on a terminal with some input. -/
def run (i : Invocation) (engine : Engine Terminal) (g : Graph) (session : String)
    (input : List UInt8) : Report :=
  let r := engine.run g session true false maxSteps (Scene.ofWorld (Terminal.ofInput input))
  let output := r.scene.world.output
  let asides := r.scene.world.remarks
  match r.outcome with
  | .failed e => ⟨output, asides, r.updates, none, .error (.fault e)⟩
  | .panicked text => ⟨output, asides, r.updates, none, .error (.panicked (panicText text))⟩
  | .ok summary =>
    let written := if i.flags.contains .json then summary.toJson.pretty ++ "\n" else ""
    ⟨output ++ written, asides, r.updates, some summary, .ok ()⟩

/-- Execute a command. -/
def execute (i : Invocation) (env : Environment) (found : Found) (session : String)
    (input : List UInt8) : Report :=
  let prepared := do
    let config ← i.config env
    let g ← i.document env found
    return ((⟨builtins, config⟩ : Engine Terminal), g)
  match prepared with
  | .error f => .failure f
  | .ok (engine, g) =>
    match i.action with
    | .check => i.check g
    | .plan => i.plan engine g
    | .run => i.run engine g session input

end Invocation

end Pipeworks.Command
