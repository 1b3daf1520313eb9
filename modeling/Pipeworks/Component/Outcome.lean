import Pipeworks.Fault

/-!
# How calls end

A call of a component returns a value, fails, or panics. A panic is contained:
to the rest of the program it is a fault of the component.
-/

namespace Pipeworks

/-- How a call ends. The text of a panic may be missing. -/
inductive Outcome (α : Type) where
  | ok (a : α)
  | failed (e : Fault)
  | panicked (text : Option String)
  deriving Repr

/-- What is said about a panic. -/
def panicText (text : Option String) : String :=
  text.getD "unknown panic"

namespace Outcome

variable {α β : Type}

def map (f : α → β) : Outcome α → Outcome β
  | .ok a => .ok (f a)
  | .failed e => .failed e
  | .panicked text => .panicked text

def ofExcept : Except Fault α → Outcome α
  | .ok a => .ok a
  | .error e => .failed e

/-- The outcome with a panic made a fault of the component; `doing` tells what it
was doing. -/
def containedIn (component doing : String) : Outcome α → Except Fault α
  | .ok a => .ok a
  | .failed e => .error e
  | .panicked text => .error (.failed component (doing ++ ": " ++ panicText text))

/-- The outcome with a panic made a fault of the component. -/
def contained (component : String) (o : Outcome α) : Except Fault α :=
  o.containedIn component "panicked"

end Outcome

end Pipeworks
