import Pipeworks.Terminal.Console
import Pipeworks.Text.Words

/-!
# Echo

A processor that gives back its input as a text after a prefix. It streams the
text word by word, each word with the space after it.
-/

namespace Pipeworks.Echo

/-- The text given back for an input; there must be one. -/
def text (name before : String) : Json → Except Fault String
  | .null => .error (.failed name "nothing to echo")
  | j => .ok (before ++ Console.render j)

/-- The chunks of a text. -/
def chunks (s : String) : List (Json × Bool) :=
  Streaming.marked ((Text.words s).map Json.string)

/-- The processor. -/
def processor (name before : String) : Processor Terminal where
  process := fun j t =>
    { outcome := (Outcome.ofExcept (text name before j)).map Json.string, world := t }
  stream := fun j t =>
    { outcome := (Outcome.ofExcept (text name before j)).map fun s => Streaming.chunks (chunks s)
      world := t }

/-- The component. -/
def component (o : Options (Component Terminal)) : Except Fault (Component Terminal) := do
  let before ← o.text "prefix" ""
  return { processor := some (processor o.name before) }

end Pipeworks.Echo
