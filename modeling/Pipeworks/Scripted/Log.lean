import Pipeworks.Bus.Event
import Pipeworks.Json.Printer
import Pipeworks.Text.Identifier

/-!
# What scripted components write down

The world of scripted components is a log of everything that happened to them,
and what they remember between calls.
-/

namespace Pipeworks.Scripted

/-- Everything that happened to scripted components, the latest first; each record
begins with the name of a component. -/
structure Log where
  calls : List (String × String)
  delivered : List (String × Json)
  /-- Chunks with their stream and whether they were final. -/
  chunks : List (String × String × Json × Bool)
  events : List (String × Event)
  closed : List String

/-- The world of scripted components. -/
structure Notebook where
  log : Log
  /-- How many items each input has given. -/
  given : List (String × Nat)
  /-- How many deliveries each subscriber has let fail. -/
  failed : List (String × Nat)

namespace Log

def empty : Log := ⟨[], [], [], [], []⟩

/-- The log with everything in the order in which it happened. -/
def inOrder (l : Log) : Log :=
  ⟨l.calls.reverse, l.delivered.reverse, l.chunks.reverse, l.events.reverse, l.closed.reverse⟩

/-- The names in some records, each once, in the order of first mention. -/
def names {α : Type} (records : List (String × α)) : List String :=
  (records.map (·.1)).eraseDups

/-- What the records of a name say. -/
def ofName {α : Type} (records : List (String × α)) (name : String) : List α :=
  records.filterMap fun r => if r.1 = name then some r.2 else none

/-- The chunks of a component, stream by stream in the order of first mention. -/
def streamsOf (l : Log) (name : String) : List (List (Json × Bool)) :=
  let chunks := ofName l.chunks name
  (names chunks).map (ofName chunks)

/-- What is shown of an event: its payload without identifiers. -/
def ofEvent (e : Event) : Json :=
  .object [("payload", e.payload.hideIdentifiers), ("session", .bool e.session.isSome),
    ("source", Event.textOrNull e.source), ("target", Event.textOrNull e.target),
    ("topic", .string e.topic)]

/-- Documents in the order of their compact texts. -/
def byText (js : List Json) : List Json :=
  js.mergeSort fun a b => decide (a.compact ≤ b.compact)

/-- What is shown of the chunks of a stream. -/
def ofChunks (chunks : List (Json × Bool)) : Json :=
  .array (chunks.map fun (data, isFinal) => .array [data, .bool isFinal])

/-- The records of each name. -/
def perName {α : Type} (records : List (String × α)) (recorded : String → List Json) : Json :=
  .object ((names records).map fun name => (name, .array (recorded name)))

/-- The log as JSON. Records whose order depends on what runs beside what can be
put in the order of their texts. -/
def toJson (l : Log) (inOrderOfTexts : Bool) : Json :=
  let l := l.inOrder
  let order (js : List Json) : List Json := if inOrderOfTexts then byText js else js
  .object [
    ("calls", perName l.calls fun name => (ofName l.calls name).map Json.string),
    ("delivered", perName l.delivered fun name => order (ofName l.delivered name)),
    ("streams", perName l.chunks fun name => order ((l.streamsOf name).map ofChunks)),
    ("events", perName l.events fun name => order ((ofName l.events name).map ofEvent)),
    ("closed", .array (l.closed.map Json.string))]

end Log

namespace Notebook

def empty : Notebook := ⟨Log.empty, [], []⟩

def noteCall (s : Notebook) (name text : String) : Notebook :=
  { s with log := { s.log with calls := (name, text) :: s.log.calls } }

def noteDelivery (s : Notebook) (name : String) (payload : Json) : Notebook :=
  { s with log := { s.log with delivered := (name, payload) :: s.log.delivered } }

def noteChunk (s : Notebook) (name stream : String) (data : Json) (isFinal : Bool) : Notebook :=
  { s with log := { s.log with chunks := (name, stream, data, isFinal) :: s.log.chunks } }

def noteEvent (s : Notebook) (name : String) (e : Event) : Notebook :=
  { s with log := { s.log with events := (name, e) :: s.log.events } }

def noteClosed (s : Notebook) (name : String) : Notebook :=
  { s with log := { s.log with closed := name :: s.log.closed } }

/-- A counter of a name. -/
def counter (counts : List (String × Nat)) (name : String) : Nat :=
  (counts.lookup name).getD 0

/-- A counter of a name, one higher. -/
def countOn (counts : List (String × Nat)) (name : String) : List (String × Nat) :=
  (name, counter counts name + 1) :: counts.filter (·.1 != name)

/-- The number of the next item of an input. -/
def nextItem (s : Notebook) (name : String) : Nat × Notebook :=
  (counter s.given name, { s with given := countOn s.given name })

/-- The number of deliveries a subscriber has let fail before this one. -/
def nextFailure (s : Notebook) (name : String) : Nat × Notebook :=
  (counter s.failed name, { s with failed := countOn s.failed name })

end Notebook

end Pipeworks.Scripted
