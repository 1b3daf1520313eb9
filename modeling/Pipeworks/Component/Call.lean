import Pipeworks.Component.Outcome
import Pipeworks.Json.Value

/-!
# Calls of components

All calls of components act on one world `σ`, which stands for whatever
components keep or touch.
-/

namespace Pipeworks

/-- What a call leaves behind. -/
structure Reply (σ α : Type) where
  outcome : Outcome α
  world : σ
  /-- How long the call takes, in milliseconds. -/
  lasts : Nat := 0
  /-- Whether the call asks at its beginning for the run to be interrupted. -/
  interrupts : Bool := false

/-- A call of a component. -/
abbrev Call (σ α : Type) := σ → Reply σ α

/-- What a call in the init or start phase leaves behind. -/
structure PhaseReply (σ : Type) where
  /-- The percentages reported during the call. -/
  reports : List Nat
  outcome : Outcome Unit
  world : σ

/-- A call in the init or start phase. -/
abbrev PhaseCall (σ : Type) := σ → PhaseReply σ

/-- What an input gives. -/
inductive Pulled where
  | value (j : Json)
  /-- There is nothing more. -/
  | exhausted
  deriving Repr

/-- A result that is written chunk by chunk. A write tells whether it succeeded. -/
inductive Streaming where
  | finish (o : Outcome Unit)
  | write (data : Json) (isFinal : Bool) (next : Except Fault Unit → Streaming)

namespace Streaming

/-- End with the result of the last write. -/
def ending (r : Except Fault Unit) : Streaming :=
  .finish (Outcome.ofExcept r)

/-- Write chunks in order, stopping at the first failure. -/
def chunks : List (Json × Bool) → Streaming
  | [] => .finish (.ok ())
  | (data, isFinal) :: rest =>
    .write data isFinal fun r =>
      match r with
      | .ok () => chunks rest
      | .error e => .finish (.failed e)

/-- Mark the last of some chunks as final; without chunks there is an empty one. -/
def marked : List Json → List (Json × Bool)
  | [] => [(.string "", true)]
  | [j] => [(j, true)]
  | j :: rest => (j, false) :: marked rest

/-- Write one chunk that is the whole result. -/
def whole (data : Json) : Streaming :=
  .write data true ending

/-- The chunks written when every write succeeds, and how it ends then. -/
def written : Streaming → List (Json × Bool) × Outcome Unit
  | .finish o => ([], o)
  | .write data isFinal next =>
    let (rest, o) := (next (.ok ())).written
    ((data, isFinal) :: rest, o)

end Streaming

/-- A processor: makes a result of an input, at once or as chunks. -/
structure Processor (σ : Type) where
  process : Json → Call σ Json
  stream : Json → Call σ Streaming

/-- A processor that streams its whole result as one chunk. -/
def Processor.ofProcess {σ : Type} (process : Json → Call σ Json) : Processor σ where
  process
  stream := fun input world =>
    let r := process input world
    { r with outcome := r.outcome.map Streaming.whole }

/-- An output: takes whole results, and perhaps the chunks of streams. -/
structure Output (σ : Type) where
  deliver : Json → Call σ Unit
  deliverChunk : Option (String → Json → Bool → Call σ Unit)

end Pipeworks
