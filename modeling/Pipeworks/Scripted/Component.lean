import Pipeworks.Component.Basic
import Pipeworks.Component.Registry
import Pipeworks.Lifecycle.Stage
import Pipeworks.Scripted.Log
import Pipeworks.Text.Letters
import Pipeworks.Text.Words

/-!
# Scripted components

A scripted component does what the keys of its declaration say: how each of its
calls ends, which capabilities it has, what its input gives, what its processor
computes, and what its handler does. It notes everything that happens to it. Such
components stand in for real ones wherever the rest of the program is tried out.
-/

namespace Pipeworks.Scripted

open Config

/-- The rest of a text after a beginning it has. -/
def after? (beginning s : String) : Option String :=
  let cs := s.toList
  if beginning.toList.isPrefixOf cs then some (String.ofList (cs.drop beginning.length)) else none

/-- How a script ends; a text of any other meaning ends well. -/
def runScript (name script : String) : Outcome Unit :=
  match after? "error:" script, after? "runtime:" script, after? "panic:" script with
  | some text, _, _ => .failed (.failed name text)
  | _, some text, _ => .failed (.run (.stated text))
  | _, _, some text => .panicked (some text)
  | _, _, _ => if script = "panic_any" then .panicked none else .ok ()

/-- What a scripted component does. -/
structure Part where
  name : String
  onInit : String
  onParallelInit : String
  onStart : String
  onParallelStart : String
  onClose : String
  capabilities : List String
  /-- How long its input waits before each item. -/
  delay : Nat
  operation : String
  /-- How its processor streams, if not in the common way. -/
  stream : Option String
  topics : List String
  handler : String
  /-- What its input gives. -/
  items : Array Json
  /-- The percentages reported in every phase. -/
  reports : List Nat
  /-- The text that its output refuses. -/
  reject : Option String

namespace Part

/-- The percentages in a value: whole numbers of one byte. -/
def percentages (v : Value) : List Nat :=
  (v.items?.getD []).filterMap fun v =>
    v.integer?.bind fun n => if 0 ≤ n ∧ n ≤ 255 then some n.toNat else none

/-- Read what a component does from its options. -/
def ofOptions {ι : Type} (o : Options ι) : Except Fault Part := do
  let onInit ← o.text "on_init" "ok"
  let onParallelInit ← o.text "on_parallel_init" "ok"
  let onStart ← o.text "on_start" "ok"
  let onParallelStart ← o.text "on_parallel_start" "ok"
  let onClose ← o.text "on_close" "ok"
  let capabilities ← o.texts "caps"
  let delay ← o.natural "delay_ms" 0
  let operation ← o.text "op" "identity"
  let stream ← o.text "stream" ""
  let topics ← o.texts "topics"
  let handler ← o.text "handler" "ok"
  return {
    name := o.name, onInit, onParallelInit, onStart, onParallelStart, onClose, capabilities,
    delay, operation
    stream := (o.get? "stream").map fun _ => stream
    topics, handler
    items := ((((o.get? "items").bind Value.items?).getD []).map fun v => v.toJson.canonical).toArray
    reports := ((o.get? "report").map percentages).getD []
    reject := (o.get? "reject").bind Value.text? }

def can (p : Part) (c : Capability) : Bool :=
  p.capabilities.contains c.text

/-- A call in a phase. -/
def phase (p : Part) (key script : String) (running : Phase) : PhaseCall Notebook := fun s =>
  ⟨p.reports, runScript p.name script,
    s.noteCall p.name (key ++ " " ++ p.name ++ "/" ++ running.text)⟩

/-- How long a component waits after it asked for an interruption. -/
def interruptPause : Nat := 40

/-- Give the next item. An item that begins with an exclamation mark is also a
command: a script, the end of the input, or an interruption. -/
def pull (p : Part) : Call Notebook Pulled := fun s =>
  let (n, s) := s.nextItem p.name
  match p.items[n]? with
  | none => { outcome := .ok .exhausted, world := s, lasts := p.delay }
  | some item =>
    match item.text?.bind (after? "!") with
    | none => { outcome := .ok (.value item), world := s, lasts := p.delay }
    | some "exit" => { outcome := .ok .exhausted, world := s, lasts := p.delay }
    | some "cancel" =>
      { outcome := .ok (.value item), world := s, lasts := p.delay + interruptPause,
        interrupts := true }
    | some script =>
      { outcome := (runScript p.name script).map fun _ => .value item, world := s, lasts := p.delay }

/-- A computation on texts. -/
def onText (p : Part) (f : String → Json) : Json → Outcome Json
  | .string s => .ok (f s)
  | _ => .failed (.failed p.name "expected text")

/-- What the processor makes of an input. -/
def result (p : Part) (input : Json) : Outcome Json :=
  match runScript p.name p.operation with
  | .failed e => .failed e
  | .panicked text => .panicked text
  | .ok () =>
    match after? "suffix:" p.operation, after? "error_if:" p.operation with
    | some suffix, _ => p.onText (fun s => .string (s ++ suffix)) input
    | _, some refused =>
      if input.text? = some refused then .failed (.failed p.name "refused") else .ok input
    | none, none =>
      match p.operation with
      | "upper" => p.onText (fun s => .string (Text.upper s)) input
      | "split" => p.onText (fun s => .array ((Text.fields s).map Json.string)) input
      | "wrap" => .ok (.object [("by", .string p.name), ("value", input)])
      | _ => .ok input

/-- Process an input. -/
def process (p : Part) (input : Json) : Call Notebook Json := fun s =>
  if p.operation = "cancel" then
    { outcome := p.result input, world := s, lasts := interruptPause, interrupts := true }
  else { outcome := p.result input, world := s }

/-- The chunks of a result: the pieces of a text, the items of an array, or the
result itself. -/
def chunksOf (result : Json) : List Json :=
  let cut := match result with
    | .string s => (Text.words s).map Json.string
    | .array items => items
    | j => [j]
  if cut.isEmpty then [.string ""] else cut

/-- How a result is streamed. -/
def streamed (way : String) (result : Json) : Streaming :=
  let chunks := chunksOf result
  if way = "nofinal" then Streaming.chunks (chunks.map (·, false))
  else if way = "late" then Streaming.chunks (Streaming.marked chunks ++ [(.string "late", false)])
  else Streaming.chunks (Streaming.marked chunks)

/-- The processor. -/
def processor (p : Part) : Processor Notebook :=
  match p.stream with
  | none => Processor.ofProcess p.process
  | some way =>
    { process := p.process
      stream := fun input s =>
        let r := p.process input s
        { r with outcome := r.outcome.map (streamed way) } }

/-- Whether the output takes a payload. -/
def accepts (p : Part) (payload : Json) : Outcome Unit :=
  if p.reject.isSome ∧ payload.text? = p.reject then .failed (.failed p.name "rejected")
  else if p.reject = some "!panic" then .panicked (some "rejected")
  else .ok ()

/-- The output. -/
def output (p : Part) : Output Notebook where
  deliver := fun payload s => { outcome := p.accepts payload, world := s.noteDelivery p.name payload }
  deliverChunk :=
    if p.can .streamingOutput then
      some fun stream data isFinal s =>
        { outcome := .ok (), world := s.noteChunk p.name stream data isFinal }
    else none

/-- Whether an event carries a text, itself or as its input. -/
def carries (e : Event) (text : String) : Bool :=
  e.payload.text? == some text || (e.payload.get? "input").bind Json.text? == some text

/-- What the handler does after noting an event. -/
def react (p : Part) (e : Event) : Work Notebook :=
  match after? "forward:" p.handler, after? "error_if:" p.handler with
  | some topic, _ =>
    .emit { Event.plain topic e.payload with source := some p.name } fun r =>
      match r with
      | .ok _ => .done
      | .error fault => .fail fault
  | _, some refused => if carries e refused then .fail (.failed p.name "refused") else .done
  | none, none => .finish (runScript p.name p.handler)

/-- The event handler. -/
def eventHandler (p : Part) : Handler Notebook where
  topics := p.topics
  handle := fun e => .act fun s => (s.noteEvent p.name e, p.react e)

/-- The component. -/
def component (p : Part) : Component Notebook where
  init := if p.can .init then some (p.phase "on_init" p.onInit .init) else none
  parallelInit :=
    if p.can .parallelInit then some (p.phase "on_parallel_init" p.onParallelInit .init) else none
  start := if p.can .start then some (p.phase "on_start" p.onStart .start) else none
  parallelStart :=
    if p.can .parallelStart then some (p.phase "on_parallel_start" p.onParallelStart .start)
    else none
  input := if p.can .input then some p.pull else none
  processor := if p.can .processor then some p.processor else none
  output := if p.can .output then some p.output else none
  handler := if p.can .eventHandler then some p.eventHandler else none
  close := fun s => { outcome := runScript p.name p.onClose, world := s.noteClosed p.name }

end Part

/-- Check the keys that a component needs. -/
def needs (o : Options (Component Notebook)) : Except Fault Nat := do
  for key in ← o.texts "require" do
    let _ ← o.require key
  let _ ← o.component "one"
  return (← o.components "use").length

/-- Build a component that notes `label` on its construction. -/
def construct (label : String) : Constructor Notebook := fun o s =>
  let s := s.noteCall o.name ("new " ++ label)
  match needs o with
  | .error e => ⟨.failed e, s⟩
  | .ok used =>
    let s := if used = 0 then s else s.noteCall o.name ("uses " ++ toString used)
    match o.text "on_new" "ok" with
    | .error e => ⟨.failed e, s⟩
    | .ok script =>
      match runScript o.name script with
      | .failed e => ⟨.failed e, s⟩
      | .panicked text => ⟨.panicked text, s⟩
      | .ok () =>
        match Part.ofOptions o with
        | .error e => ⟨.failed e, s⟩
        | .ok part => ⟨.ok part.component, s⟩

/-- A registry of scripted components with the given kinds, types and labels. -/
def registry (entries : List (String × String × String)) : Registry Notebook :=
  entries.foldl (fun r (kind, type, label) => r.register kind type (construct label)) Registry.empty

end Pipeworks.Scripted
