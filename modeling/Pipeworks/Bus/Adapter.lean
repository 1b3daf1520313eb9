import Pipeworks.Component.Basic

/-!
# Components as subscribers

An event handler handles events itself. A processor takes the inputs: it opens a
stream for each output, announces it to that output, and writes the chunks of its
result to all of them; without outputs it publishes the whole result. An output
reads every announced stream by tracked work of its own, or takes a whole result.
-/

namespace Pipeworks

variable {σ : Type}

/-- The fault of a component that lacks a role. -/
def missingRole (component role : String) : Fault :=
  .failed component ("does not implement " ++ role)

/-- The work of an event handler. -/
def handlerWork (name : String) (c : Component σ) (e : Event) : Work σ :=
  match c.handler with
  | none => .fail (missingRole name "an event handler")
  | some h => h.handle e

/-- What a processor gets from an event: its input, or else the whole payload. -/
def inputOf (e : Event) : Json :=
  (e.payload.get? "input").getD e.payload

/-- Write a chunk to the given streams one after another. `kept` are those that
took it; one that refuses it leaves. The write fails only if none is left. -/
def writeEach (data : Json) (isFinal : Bool) (kept : List String) (last : Option Fault)
    (next : Except Fault Unit → List String → Work σ) : List String → Work σ
  | [] => next (FanResult.outcome ⟨kept, last⟩) kept
  | id :: rest =>
    .write id data isFinal fun r =>
      match r with
      | .ok () => writeEach data isFinal (kept ++ [id]) last next rest
      | .error e => .dropWriter id (writeEach data isFinal kept (some e) next rest)

/-- Write a streamed result of a processor to streams. -/
def fanWork (name : String) : Streaming → List String → Work σ
  | .finish o, ids => .dropWriters ids (.finish (Outcome.ofExcept (o.contained name)))
  | .write data isFinal next, ids =>
    if ids.isEmpty then fanWork name (next (.error (.run .noOutputStream))) ids
    else writeEach data isFinal [] none (fun r kept => fanWork name (next r) kept) ids

/-- Process an input and write the result to the given streams. -/
def streamWork (name : String) (c : Component σ) (input : Json) (ids : List String) : Work σ :=
  match c.processor with
  | none => .dropWriters ids (.fail (missingRole name "a processor"))
  | some p =>
    .call (p.stream input) fun o =>
      match o.contained name with
      | .error e => .dropWriters ids (.fail e)
      | .ok streaming => fanWork name streaming ids

/-- Open a stream for each output and announce it; `ids` are the streams opened
before. -/
def announceWork (name : String) (e : Event) (next : List String → Work σ) (ids : List String) :
    List String → Work σ
  | [] => next ids
  | output :: rest =>
    .openStream fun id =>
      let payload := Json.object [("source", .string name), ("stream_id", .string id)]
      let announcement := { Event.followUp e streamStarted payload name with target := some output }
      .emit announcement fun r =>
        match r with
        | .error fault => .dropWriters (ids ++ [id]) (.fail fault)
        | .ok _ => announceWork name e next (ids ++ [id]) rest

/-- Process an input and publish the whole result. -/
def wholeWork (name : String) (c : Component σ) (e : Event) : Work σ :=
  match c.processor with
  | none => .fail (missingRole name "a processor")
  | some p =>
    .call (p.process (inputOf e)) fun o =>
      match o.contained name with
      | .error fault => .fail fault
      | .ok result =>
        .emit (Event.followUp e agentResponse result name) fun r =>
          match r with
          | .error fault => .fail fault
          | .ok _ => .done

/-- The work of a processor that streams to the given outputs. -/
def processorWork (name : String) (c : Component σ) (outputs : List String) (e : Event) : Work σ :=
  if outputs.isEmpty then wholeWork name c e
  else announceWork name e (streamWork name c (inputOf e)) [] outputs

/-- Read a claimed stream to its end. -/
def drainWork (c : Component σ) (id : String) : Work σ :=
  match c.output with
  | none => .dropReader id .done
  | some output => .drain id output []

/-- The work of an output. -/
def outputWork (name : String) (c : Component σ) (e : Event) : Work σ :=
  if e.topic = streamStarted then
    match (e.payload.get? "stream_id").bind Json.text? with
    | none => .fail (.failed name "stream_started event without stream_id")
    | some id =>
      .claim id fun r =>
        match r with
        | .error fault => .fail fault
        | .ok () => .spawn (drainWork c id) .done
  else
    match c.output with
    | none => .fail (missingRole name "an output")
    | some output => .call (output.deliver e.payload) .finish

end Pipeworks
