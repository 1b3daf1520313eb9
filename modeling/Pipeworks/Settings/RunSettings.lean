import Pipeworks.Config.Graph
import Pipeworks.Settings.RunConfig

/-!
# The settings of a run

A declaration of the kind `message_bus` chooses the bus, unless it says that it
is not enabled, and its keys change the policy. Only the first such declaration
counts, and a mode that is forced from outside wins over it.
-/

namespace Pipeworks

open Config

/-- The kind of the declaration that configures the bus and is no component. -/
def busKind : String := "message_bus"

/-- The settings a run goes by. -/
structure RunSettings where
  mode : Mode
  workers : Nat
  exitToken : String
  policy : Policy
  deriving Repr

namespace RunSettings

/-- The settings without a document. -/
def standard : RunSettings :=
  ⟨.sequential, defaultWorkers, defaultExitToken, Policy.standard⟩

/-- What a declaration says so far about the bus. -/
structure BusChoice where
  enabled : Bool
  policy : Policy

/-- Take one entry of the declaration `name`; an absent value and a key of
another meaning change nothing. -/
def BusChoice.take (name : String) (choice : BusChoice) (key : String) (v : Value) :
    Except Fault BusChoice :=
  if v.isAbsent then .ok choice
  else if key = "enabled" then
    match v.flag? with
    | some b => .ok { choice with enabled := b }
    | none => .error (.invalidValue name key "a boolean")
  else
    match Knob.ofKey? key with
    | none => .ok choice
    | some knob =>
      match knob.assign? choice.policy v with
      | some policy => .ok { choice with policy }
      | none => .error (.invalidValue name key knob.expected)

/-- What a declaration says about the bus, its entries taken in order. -/
def BusChoice.ofDeclaration (base : Policy) (d : Declaration) : Except Fault BusChoice :=
  d.block.foldlM (fun choice e => choice.take d.name e.1 e.2) ⟨true, base⟩

/-- The settings of a run of `g` that is configured by `base`. -/
def ofGraph (g : Graph) (base : RunConfig) : Except Fault RunSettings := do
  let choice ← match (g.ofKind busKind).head? with
    | none => .ok ⟨false, base.policy⟩
    | some d => BusChoice.ofDeclaration base.policy d
  choice.policy.check
  let mode := base.mode.getD (if choice.enabled then .bus else .sequential)
  return ⟨mode, base.workers, base.exitToken, choice.policy⟩

/-- The settings as JSON. -/
def toJson (s : RunSettings) : Json :=
  .object [("mode", s.mode.toJson), ("workers", .integer s.workers),
    ("exit_token", .string s.exitToken), ("bus", s.policy.toJson)]

end RunSettings

end Pipeworks
