import Pipeworks.Scripted.Log
import Pipeworks.Bus.Work

/-!
# Scripted subscribers

A scripted subscriber notes every event it gets and then fails, forwards, or
takes its time.
-/

namespace Pipeworks.Scripted

/-- What a scripted subscriber does in an unusual way. -/
inductive Manner where
  | plain
  /-- Never finish a delivery. -/
  | hang
  /-- Start tracked work that panics. -/
  | trackPanic
  /-- Start tracked work that never ends. -/
  | trackHang
  deriving DecidableEq, Repr

/-- A scripted subscriber. -/
structure Subscriber where
  name : String
  manner : Manner
  /-- How long a delivery takes. -/
  slow : Nat
  /-- The number of deliveries that fail at first. -/
  failFirst : Nat
  /-- The payload whose deliveries fail. -/
  failIf : Option Json
  message : String
  forward : Option String

namespace Subscriber

/-- How a delivery ends. -/
def finish (u : Subscriber) (e : Event) : Work Notebook :=
  .act fun s =>
    let fault : Fault := .failed u.name u.message
    let (failures, counted) := s.nextFailure u.name
    if failures < u.failFirst then (counted, .fail fault)
    else if (u.failIf.map (·.same e.payload)).getD false then (s, .fail fault)
    else
      match u.forward with
      | none => (s, .done)
      | some topic =>
        (s, .emit { Event.plain topic e.payload with source := some u.name } fun r =>
          match r with
          | .ok _ => .done
          | .error fault => .fail fault)

/-- What the subscriber does with an event. -/
def deliver (u : Subscriber) (e : Event) : Work Notebook :=
  .act fun s =>
    let go : Work Notebook := match u.manner with
      | .plain => u.finish e
      | .hang => .stall
      | .trackPanic => .spawn (.finish (.panicked none)) (u.finish e)
      | .trackHang => .spawn .stall (u.finish e)
    (s.noteEvent u.name e, if u.slow = 0 then go else .pause u.slow go)

end Subscriber

end Pipeworks.Scripted
