import Pipeworks.Terminal.Echo

/-!
# Built-in components

The components that can be used in a document without further ado: a console as
input and output, an echo as processor, and a handler that takes every event
without doing anything with it.
-/

namespace Pipeworks

/-- A handler that has no topics of its own and is content with every event. -/
def quietHandler (_ : Options (Component Terminal)) : Except Fault (Component Terminal) :=
  .ok { handler := some { topics := [], handle := fun _ => .done } }

/-- The registry of the built-in components. -/
def builtins : Registry Terminal :=
  let entry (r : Registry Terminal) (kind type : String)
      (build : Options (Component Terminal) → Except Fault (Component Terminal)) :=
    r.register kind type (Console.constructor build)
  let r := entry Registry.empty "input" "console" Console.input
  let r := entry r "output" "console" Console.output
  let r := entry r "llm" "echo" Echo.component
  let r := entry r "processor" "echo" Echo.component
  entry r "handler" "log" quietHandler

end Pipeworks
