import Pipeworks.Fault
import Pipeworks.Json.Value

/-!
# Stages of a component

A component is created, initialized and started. It may fail at any moment
before it is started; a component that is started or has failed stays so.
-/

namespace Pipeworks

/-- How far a component has come. -/
inductive Stage where
  | created
  | initializing
  | initialized
  | starting
  | started
  | failed (reason : String)
  deriving DecidableEq, Repr, Inhabited

/-- The two phases of bringing a component up. -/
inductive Phase where
  | init
  | start
  deriving DecidableEq, Repr

def Phase.text : Phase → String
  | .init => "init"
  | .start => "start"

/-- The name of a phase in JSON. -/
def Phase.name : Phase → String
  | .init => "Init"
  | .start => "Start"

namespace Stage

/-- Whether no other stage follows. -/
def isFinal : Stage → Bool
  | .started | .failed _ => true
  | _ => false

def isFailed : Stage → Bool
  | .failed _ => true
  | _ => false

/-- Whether `next` may follow. -/
def canBecome : Stage → Stage → Bool
  | .started, _ | .failed _, _ => false
  | _, .failed _ => true
  | .created, .initializing => true
  | .initializing, .initialized => true
  | .initialized, .starting => true
  | .starting, .started => true
  | _, _ => false

def text : Stage → String
  | .created => "created"
  | .initializing => "initializing"
  | .initialized => "initialized"
  | .starting => "starting"
  | .started => "started"
  | .failed reason => "failed: " ++ reason

/-- The stage as JSON. -/
def toJson : Stage → Json
  | .created => .string "Created"
  | .initializing => .string "Initializing"
  | .initialized => .string "Initialized"
  | .starting => .string "Starting"
  | .started => .string "Started"
  | .failed reason => .object [("Failed", .string reason)]

/-- Move the component `name` to another stage. -/
def advance (name : String) (current next : Stage) : Except Fault Stage :=
  if current.canBecome next then .ok next
  else .error (.failed name
    ("invalid lifecycle transition " ++ current.text ++ " -> " ++ next.text))

/-- The stage in which a phase runs. -/
def running : Phase → Stage
  | .init => .initializing
  | .start => .starting

/-- The stage a phase leads to. -/
def done : Phase → Stage
  | .init => .initialized
  | .start => .started

end Stage

end Pipeworks
