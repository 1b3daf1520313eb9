import Pipeworks.Json.Value

/-!
# Events

An event is published on a topic. It may name the session it belongs to, the
component it comes from, and a subscriber that alone shall get it. In JSON it
carries a stamp: an identifier and the time of publication.
-/

namespace Pipeworks

/-- An event. -/
structure Event where
  topic : String
  payload : Json
  session : Option String
  source : Option String
  target : Option String
  deriving Repr, Inhabited

/-- The identifier and the time of a publication. -/
structure Stamp where
  id : String
  time : String
  deriving DecidableEq, Repr

/-- The topic of an input that was read. -/
def inputReceived : String := "input_received"

/-- The topic of a complete result. -/
def agentResponse : String := "agent_response"

/-- The topic that announces a stream. -/
def streamStarted : String := "stream_started"

namespace Event

/-- An event for all subscribers of a topic. -/
def plain (topic : String) (payload : Json) : Event :=
  ⟨topic, payload, none, none, none⟩

/-- Whether a subscriber may get the event. -/
def isFor (e : Event) (subscriber : String) : Bool :=
  match e.target with
  | none => true
  | some t => t == subscriber

/-- An event that `source` publishes because of another one, in its session. -/
def followUp (cause : Event) (topic : String) (payload : Json) (source : String) : Event :=
  ⟨topic, payload, cause.session, some source, none⟩

/-- A text or null. -/
def textOrNull (s : Option String) : Json :=
  (s.map Json.string).getD .null

/-- The event as JSON. -/
def toJson (e : Event) (stamp : Stamp) : Json :=
  .object [("id", .string stamp.id), ("topic", .string e.topic), ("payload", e.payload),
    ("session_id", textOrNull e.session), ("source", textOrNull e.source),
    ("target", textOrNull e.target), ("created_at", .string stamp.time)]

/-- A text or null, read back. -/
def textOrNull? : Json → Option (Option String)
  | .null => some none
  | .string s => some (some s)
  | _ => none

/-- Read an event with its stamp. -/
def ofJson? (j : Json) : Option (Event × Stamp) := do
  let text (key : String) : Option String := (j.get? key).bind Json.text?
  let optional (key : String) : Option (Option String) := textOrNull? ((j.get? key).getD .null)
  some (⟨← text "topic", ← j.get? "payload", ← optional "session_id", ← optional "source",
    ← optional "target"⟩, ⟨← text "id", ← text "created_at"⟩)

/-- Equality of events, their payloads compared as documents. -/
def same (a b : Event) : Bool :=
  a.topic == b.topic && a.payload.same b.payload && a.session == b.session
    && a.source == b.source && a.target == b.target

end Event

end Pipeworks
