import Pipeworks.Bus.Event
import Pipeworks.Bus.Stream
import Pipeworks.Component.Call

/-!
# Work beside other work

What a subscriber does with an event is a program whose steps may wait: for room
in a queue, for room in a stream, for a chunk, or for time to pass. `Work σ` is
such a program over a world `σ`; who runs it decides when its next step is taken.
-/

namespace Pipeworks

/-- A program that acts on a world `σ`, on the bus and on its streams. -/
inductive Work (σ : Type) where
  | finish (o : Outcome Unit)
  /-- Change the world and go on. -/
  | act (f : σ → σ × Work σ)
  /-- Let time pass. -/
  | pause (ms : Nat) (next : Work σ)
  /-- Never go on. -/
  | stall
  /-- Ask for the run to be interrupted. -/
  | interrupt (next : Work σ)
  /-- Publish an event; the answer is the number of subscribers it was queued for. -/
  | emit (e : Event) (next : Except Fault Nat → Work σ)
  | openStream (next : String → Work σ)
  /-- Write a chunk to a stream, once there is room. -/
  | write (stream : String) (data : Json) (isFinal : Bool) (next : Except Fault Unit → Work σ)
  /-- Let the writer of a stream go. -/
  | dropWriter (stream : String) (next : Work σ)
  | claim (stream : String) (next : Except Fault Unit → Work σ)
  /-- Read a claimed stream to its end into an output that has got no final chunk
  yet; `collected` are the chunks read so far, unless they were delivered singly. -/
  | drain (stream : String) (output : Output σ) (collected : List Json)
  /-- Let the reader of a stream go. -/
  | dropReader (stream : String) (next : Work σ)
  /-- Start tracked work beside this one. -/
  | spawn (task : Work σ) (next : Work σ)

instance {σ : Type} : Inhabited (Work σ) := ⟨.stall⟩

namespace Work

variable {σ α : Type}

/-- Work that is done. -/
def done : Work σ :=
  .finish (.ok ())

/-- Work that fails. -/
def fail (e : Fault) : Work σ :=
  .finish (.failed e)

/-- Make a component call part of some work. -/
def call (c : Call σ α) (next : Outcome α → Work σ) : Work σ :=
  .act fun world =>
    let r := c world
    let after : Work σ := if r.lasts = 0 then next r.outcome else .pause r.lasts (next r.outcome)
    (r.world, if r.interrupts then .interrupt after else after)

/-- Let the writers of some streams go. -/
def dropWriters (streams : List String) (next : Work σ) : Work σ :=
  streams.foldr Work.dropWriter next

/-- Go on draining a stream after a delivery to its output, or let it go. -/
def drainOn (stream : String) (output : Output σ) (collected : List Json) : Outcome Unit → Work σ
  | .ok () => .drain stream output collected
  | .failed _ => .dropReader stream done
  | .panicked text => .dropReader stream (.finish (.panicked text))

/-- What follows a chunk of a stream that is being drained: it is delivered if the
output takes chunks, else it is kept, and the final one makes the whole result be
delivered. -/
def drainChunk (stream : String) (output : Output σ) (collected : List Json) (c : Chunk) : Work σ :=
  match output.deliverChunk with
  | some deliver => call (deliver c.stream c.data c.isFinal) (drainOn stream output [])
  | none =>
    let collected := collected ++ [c.data]
    if c.isFinal then call (output.deliver (assemble collected)) (drainOn stream output [])
    else .drain stream output collected

end Work

end Pipeworks
