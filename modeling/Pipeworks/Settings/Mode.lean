import Pipeworks.Fault
import Pipeworks.Json.Value
import Pipeworks.Text.Blank
import Pipeworks.Text.Letters

/-!
# Modes of a run

A run drives its components either as a chain, one input at a time, or over
the message bus.
-/

namespace Pipeworks

/-- How a run drives its components. -/
inductive Mode where
  | sequential
  | bus
  deriving DecidableEq, Repr

namespace Mode

/-- The name of a mode in settings. -/
def text : Mode → String
  | .sequential => "sequential"
  | .bus => "message_bus"

/-- The name of what drives the components in this mode. -/
def backend : Mode → String
  | .sequential => "sequential"
  | .bus => "message-bus"

/-- The mode a text names, blanks around it and the case of letters apart. -/
def ofText (s : String) : Except Fault Mode :=
  let name := Text.lower (Text.trim s)
  if name = "sequential" then .ok .sequential
  else if name = "message_bus" ∨ name = "bus" then .ok .bus
  else .error (.config (.unknownMode name))

/-- The mode with exactly the given name. -/
def ofName? (s : String) : Option Mode :=
  if s = "sequential" then some .sequential
  else if s = "message_bus" then some .bus
  else none

def toJson (m : Mode) : Json :=
  .string m.text

end Mode

end Pipeworks
