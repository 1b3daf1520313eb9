import Pipeworks.Component.Registry
import Pipeworks.Json.Printer
import Pipeworks.Terminal.Basic

/-!
# Console components

The input shows a prompt and gives the next line of standard input. The output writes each
result after a prefix on a line of its own. A streamed result is written chunk by
chunk: the prefix stands before the first chunk and the line ends after the final
one, so that the chunks give the text that the whole result would give.
-/

namespace Pipeworks.Console

/-- What is said about a line that is no text. -/
def garbledText : String := "stream did not contain valid UTF-8"

/-- Give the next line. -/
def pull (name prompt : String) : Call Terminal Pulled := fun t =>
  match (t.remark prompt).readLine with
  | (.line s, t) => { outcome := .ok (.value (.string s)), world := t }
  | (.nothing, t) => { outcome := .ok .exhausted, world := t }
  | (.garbled, t) => { outcome := .failed (.failed name garbledText), world := t }

/-- How a result is written: a text as it is, anything else as JSON. -/
def render : Json → String
  | .string s => s
  | j => j.compact

/-- What is written for a whole result. -/
def wholeText (before : String) (result : Json) : String :=
  before ++ render result ++ "\n"

/-- Write a whole result. -/
def deliver (before : String) (result : Json) : Call Terminal Unit := fun t =>
  { outcome := .ok (), world := t.write (wholeText before result) }

/-- What is written for a chunk. -/
def chunkText (before : String) (first : Bool) (chunk : Json) (isFinal : Bool) : String :=
  (if first then before else "") ++ render chunk ++ (if isFinal then "\n" else "")

/-- The streams under way after a chunk of a stream. -/
def begunAfter (begun : List (String × String)) (stream : String × String) (isFinal : Bool) :
    List (String × String) :=
  let begun := if begun.contains stream then begun else begun ++ [stream]
  if isFinal then begun.filter (· != stream) else begun

/-- Write a chunk of a stream. -/
def deliverChunk (name before stream : String) (chunk : Json) (isFinal : Bool) :
    Call Terminal Unit := fun t =>
  let first := !t.begun.contains (name, stream)
  let t := { t with begun := begunAfter t.begun (name, stream) isFinal }
  { outcome := .ok (), world := t.write (chunkText before first chunk isFinal) }

/-- Build a component from its options without touching the terminal. -/
def constructor (build : Options (Component Terminal) → Except Fault (Component Terminal)) :
    Constructor Terminal := fun o t =>
  ⟨Outcome.ofExcept (build o), t⟩

/-- The console input. -/
def input (o : Options (Component Terminal)) : Except Fault (Component Terminal) := do
  let prompt ← o.text "prompt" "> "
  return { input := some (pull o.name prompt) }

/-- The console output. -/
def output (o : Options (Component Terminal)) : Except Fault (Component Terminal) := do
  let before ← o.text "prefix" ""
  let sink : Output Terminal := ⟨deliver before, some (deliverChunk o.name before)⟩
  return { output := some sink }

end Pipeworks.Console
