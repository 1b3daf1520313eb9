import Pipeworks.Config.Environment
import Pipeworks.Settings.Mode
import Pipeworks.Settings.Policy

/-!
# The configuration of a run

What a run takes from outside its document: the number of workers, the text
that ends the input, a mode that wins over the document's, and the policy that
the document may change. Variables of the environment override it.
-/

namespace Pipeworks

open Config (Environment)

/-- What a run takes from outside its document. -/
structure RunConfig where
  workers : Nat
  exitToken : String
  /-- A mode that wins over the document's. -/
  mode : Option Mode
  policy : Policy
  deriving Inhabited, Repr

/-- The text that ends the input if nothing else is said. -/
def defaultExitToken : String := "exit"

/-- The number of workers if nothing else is said. -/
def defaultWorkers : Nat := 4

namespace RunConfig

/-- The configuration of a run that is not configured. -/
def standard : RunConfig :=
  ⟨defaultWorkers, defaultExitToken, none, Policy.standard⟩

/-- The greatest number of workers, `2 ^ 64 - 1`. -/
def maxWorkers : Nat := 18446744073709551615

/-- A whole number of at most 64 bits, with an optional plus sign. -/
def count? (s : String) : Option Nat :=
  let digits := match s.toList with
    | '+' :: rest => rest
    | cs => cs
  if digits.isEmpty || !digits.all Char.isDigit then none
  else
    let n := Decimal.wordOfDigits digits
    if n ≤ maxWorkers then some n else none

/-- Take the number of workers from the environment. -/
def overrideWorkers (env : Environment) (c : RunConfig) : Except Fault RunConfig :=
  match env "WOODWORK_WORKERS" with
  | none => .ok c
  | some s =>
    match count? (Text.trim s) with
    | none => .error (.config (.workersNotANumber s))
    | some n => .ok { c with workers := n }

/-- Take the exit token from the environment. -/
def overrideExitToken (env : Environment) (c : RunConfig) : RunConfig :=
  match env "WOODWORK_EXIT_TOKEN" with
  | none => c
  | some s => { c with exitToken := s }

/-- Take the mode from the environment. -/
def overrideMode (env : Environment) (c : RunConfig) : Except Fault RunConfig :=
  match env "WOODWORK_MODE" with
  | none => .ok c
  | some s => (Mode.ofText s).map fun m => { c with mode := some m }

/-- Apply the variables of the environment one after another, and then refuse a
run without workers. The configuration is as changed by the variables before the
one that is refused. -/
def override (env : Environment) (c : RunConfig) : Except Fault Unit × RunConfig :=
  match c.overrideWorkers env with
  | .error e => (.error e, c)
  | .ok c =>
    let c := c.overrideExitToken env
    match c.overrideMode env with
    | .error e => (.error e, c)
    | .ok c => (if c.workers = 0 then .error (.config .noWorkers) else .ok (), c)

/-- The standard configuration with the environment's overrides. -/
def ofEnvironment (env : Environment) : Except Fault RunConfig :=
  match standard.override env with
  | (.error e, _) => .error e
  | (.ok (), c) => .ok c

/-- The configuration as JSON. -/
def toJson (c : RunConfig) : Json :=
  .object [("workers", .integer c.workers), ("exit_token", .string c.exitToken),
    ("mode", (c.mode.map Mode.toJson).getD .null), ("bus", c.policy.toJson)]

end RunConfig

end Pipeworks
