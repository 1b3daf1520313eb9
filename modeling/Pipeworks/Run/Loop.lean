import Pipeworks.Bus.Adapter
import Pipeworks.Bus.Exchange
import Pipeworks.Run.Context
import Pipeworks.Run.Summary

/-!
# Running components over the bus

Every component is registered with the bus in its role, and a main loop pulls
inputs and publishes each one as an event. The loop is left when the input ends
or the run is interrupted; a pull that goes on then gets a time of grace. After
that the bus is shut down.

`Loop.step?` is one step of the loop or of the bus; `Loop.run` takes the steps in
one particular order.
-/

namespace Pipeworks

variable {σ : Type}

/-- The key of the topics that a component subscribes to besides its own. -/
def subscribeKey : String := "subscribe"

/-- The outputs that processors stream to: those that are no event handlers. -/
def streamedOutputs (c : Context σ) : List String :=
  ((c.having .output).filter (!·.has .eventHandler)).map (·.name)

/-- The topics of an event handler: its own, and the others of its declaration. -/
def handlerTopics (e : Entry σ) : Except Fault (List String) := do
  let own := ((e.component.handler).map (·.topics)).getD []
  let others ← e.options.texts subscribeKey
  return others.foldl (fun topics t => if topics.contains t then topics else topics ++ [t]) own

/-- What a component subscribes to, and its work, if it has a role on the bus. -/
def subscription (c : Context σ) (e : Entry σ) :
    Except Fault (Option (List String × (Event → Work σ))) :=
  if e.has .eventHandler then
    (handlerTopics e).map fun topics => some (topics, handlerWork e.name e.component)
  else if e.has .processor then
    .ok (some ([inputReceived], processorWork e.name e.component (streamedOutputs c)))
  else if e.has .output then
    .ok (some ([streamStarted, agentResponse], outputWork e.name e.component))
  else .ok none

/-- Subscribe components one after another; those before a failure stay subscribed. -/
def registerEach (c : Context σ) (s : Exchange σ) : List (Entry σ) → Outcome Unit × Exchange σ
  | [] => (.ok (), s)
  | e :: rest =>
    match subscription c e with
    | .error fault => (.failed fault, s)
    | .ok none => registerEach c s rest
    | .ok (some (topics, deliver)) =>
      match s.subscribe e.name topics deliver with
      | .ok s => registerEach c s rest
      | .failed fault => (.failed fault, s)
      | .panicked text => (.panicked text, s)

/-- Subscribe every component of a context. -/
def register (c : Context σ) (s : Exchange σ) : Outcome Unit × Exchange σ :=
  registerEach c s c.entries

/-- Where the main loop is. -/
inductive LoopPlace where
  /-- About to pull. -/
  | ready
  /-- A pull goes on until a time and then has its outcome. -/
  | pulling (ends : Nat) (o : Outcome Pulled)
  /-- Publishing an input. -/
  | publishing (e : Emission)
  /-- The loop was left during a pull that still goes on. -/
  | settling (exit : ExitReason) (deadline ends : Nat)
  /-- The bus is being shut down; `inTime` tells whether the last pull has ended. -/
  | stopping (exit : ExitReason) (inTime : Bool)
  deriving Repr

/-- The state of a run over the bus. -/
structure Loop (σ : Type) where
  place : LoopPlace
  /-- Inputs taken. -/
  iterations : Nat
  exchange : Exchange σ

/-- What the main loop goes by. -/
structure Feed (σ : Type) where
  inputName : String
  input : Option (Call σ Pulled)
  session : String
  exitToken : String

/-- A step of a run over the bus. -/
inductive LoopStep where
  /-- The main loop sees the interruption. -/
  | notice
  /-- The main loop goes on by itself. -/
  | main
  /-- The main loop has waited long enough for a pull. -/
  | giveUp
  | exchange (m : Move)
  deriving Repr

/-- The event that publishes an input. -/
def inputEvent (feed : Feed σ) (iteration : Nat) (value : Json) : Event where
  topic := inputReceived
  payload := .object [("input", value), ("iteration", .integer iteration),
    ("session_id", .string feed.session)]
  session := some feed.session
  source := some feed.inputName
  target := none

namespace Loop

/-- The state before the first step. -/
def begin (exchange : Exchange σ) : Loop σ :=
  ⟨.ready, 0, exchange⟩

def clock (l : Loop σ) : Nat := l.exchange.clock

/-- Leave the main loop and begin to shut the bus down. -/
def stop (l : Loop σ) (exit : ExitReason) (inTime : Bool) : Loop σ :=
  { l with place := .stopping exit inTime, exchange := l.exchange.beginShutdown }

/-- Begin a pull. -/
def pull (feed : Feed σ) (l : Loop σ) : Loop σ :=
  match feed.input with
  | none =>
    { l with place := .pulling l.clock (.failed (.failed feed.inputName "is not an input")) }
  | some call =>
    let floor := l.exchange.floor
    let r := call floor.world
    let floor := { floor with
      world := r.world
      interrupted := floor.interrupted || r.interrupts }
    { l with
      place := .pulling (l.clock + r.lasts) r.outcome
      exchange := { l.exchange with floor } }

/-- What follows a pull. -/
def afterPull (feed : Feed σ) (l : Loop σ) (o : Outcome Pulled) : Loop σ :=
  match o.contained feed.inputName with
  | .error e => l.stop (.inputFailed e.message) true
  | .ok pulled =>
    match exitRequested feed.exitToken pulled, pulled with
    | some reason, _ => l.stop reason true
    | none, .exhausted => l.stop .inputExhausted true
    | none, .value v =>
      let iterations := l.iterations + 1
      match l.exchange.bus.accept (inputEvent feed iterations v) with
      | .error _ => { l with place := .ready, iterations }
      | .ok (e, bus) =>
        { place := .publishing e, iterations, exchange := l.exchange.onBus fun _ => bus }

/-- One step of the main loop, unless it has to wait. -/
def mainStep? (feed : Feed σ) (l : Loop σ) : Option (Loop σ) :=
  match l.place with
  | .ready => some (l.pull feed)
  | .pulling ends o => if ends ≤ l.clock then some (l.afterPull feed o) else none
  | .publishing e =>
    if e.isDone then some { l with place := .ready }
    else
      (l.exchange.bus.emitStep? e).map fun (e, bus) =>
        { l with place := .publishing e, exchange := l.exchange.onBus fun _ => bus }
  | .settling exit _ ends => if ends ≤ l.clock then some (l.stop exit true) else none
  | .stopping _ _ => none

/-- One step of a run, if it can be taken. -/
def step? (feed : Feed σ) (l : Loop σ) : LoopStep → Option (Loop σ)
  | .notice =>
    match l.place with
    | .pulling ends _ =>
      if l.exchange.floor.interrupted then
        let deadline := l.clock + l.exchange.bus.policy.shutdownGrace
        some { l with place := .settling .interrupted deadline ends }
      else none
    | _ => none
  | .main => l.mainStep? feed
  | .giveUp =>
    match l.place with
    | .settling exit deadline _ => if deadline ≤ l.clock then some (l.stop exit false) else none
    | _ => none
  | .exchange m => (l.exchange.step? m).map fun exchange => { l with exchange }

/-- The times the main loop waits for. -/
def alarms (l : Loop σ) : List Nat :=
  match l.place with
  | .pulling ends _ => [ends]
  | .settling _ deadline ends => [deadline, ends]
  | _ => []

/-- The next state: an interruption is noticed at once, and the main loop goes
before everything else. -/
def next? (feed : Feed σ) (l : Loop σ) : Option (Loop σ) :=
  [LoopStep.notice, .main, .giveUp].findSome? (l.step? feed)
    <|> (l.exchange.next? l.alarms).map fun exchange => { l with exchange }

/-- Take steps until the bus is shut down, at most `fuel` steps. -/
def run (feed : Feed σ) (l : Loop σ) : Nat → Loop σ
  | 0 => l
  | fuel + 1 =>
    match l.exchange.closing with
    | .closed _ => l
    | _ =>
      match l.next? feed with
      | some l => l.run feed fuel
      | none => l

end Loop

end Pipeworks
