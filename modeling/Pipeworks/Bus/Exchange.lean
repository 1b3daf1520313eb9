import Pipeworks.Bus.Basic
import Pipeworks.Bus.Work

/-!
# The bus at work

Every subscriber that was started has a dispatcher, which takes one delivery
after another out of its mailbox and does the subscriber's work on it. Tracked
work goes on beside the dispatchers, retry ticks queue due retries again, and
sweep ticks clean up. A panic of a subscriber ends its dispatcher.

`Exchange.step?` is one step of one of them; `Exchange.next?` chooses a step. It
prefers work that can be done over ticks, and lets time pass only when nothing
else can happen.
-/

namespace Pipeworks

/-- A program under way. -/
inductive Activity (σ : Type) where
  | running (w : Work σ)
  | asleep (ends : Nat) (w : Work σ)
  | emitting (e : Emission) (next : Except Fault Nat → Work σ)
  | writing (chunk : Chunk) (next : Except Fault Unit → Work σ)

/-- What all programs share. -/
structure Floor (σ : Type) where
  world : σ
  clock : Nat
  /-- Whether the run is asked to stop. -/
  interrupted : Bool
  bus : Bus
  /-- Tracked work that goes on, in the order in which it was started. -/
  tasks : List (Activity σ)

/-- What a step of a program came to. -/
inductive Stride (σ : Type) where
  | on (a : Activity σ)
  | ended (o : Outcome Unit)

namespace Activity

variable {σ : Type}

/-- When the program goes on by itself, if it sleeps. -/
def wakes? : Activity σ → Option Nat
  | .asleep ends _ => some ends
  | _ => none

/-- Go on with some work on a changed bus. -/
def onBus (f : Floor σ) (w : Work σ) (bus : Bus) : Option (Stride σ × Floor σ) :=
  some (.on (.running w), { f with bus })

/-- Go on with some work on changed streams. -/
def onStreams (f : Floor σ) (w : Work σ) (streams : Streams) : Option (Stride σ × Floor σ) :=
  onBus f w { f.bus with streams }

/-- One step of some work, unless it has to wait. -/
def workStep? (f : Floor σ) : Work σ → Option (Stride σ × Floor σ)
  | .finish o => some (.ended o, f)
  | .act g =>
    let (world, w) := g f.world
    some (.on (.running w), { f with world })
  | .pause ms w => some (.on (.asleep (f.clock + ms) w), f)
  | .stall => none
  | .interrupt w => some (.on (.running w), { f with interrupted := true })
  | .emit e next =>
    match f.bus.accept e with
    | .error fault => some (.on (.running (next (.error fault))), f)
    | .ok (emission, bus) => some (.on (.emitting emission next), { f with bus })
  | .openStream next =>
    match f.bus.streams.start f.bus.policy.streamCapacity f.clock with
    | .ok (id, streams) => onStreams f (next id) streams
    | .failed e => some (.ended (.failed e), f)
    | .panicked text => some (.ended (.panicked text), f)
  | .write id data isFinal next =>
    match f.bus.streams.number id data isFinal with
    | .error fault => some (.on (.running (next (.error fault))), f)
    | .ok (chunk, streams) =>
      some (.on (.writing chunk next), { f with bus := { f.bus with streams } })
  | .dropWriter id w => onStreams f w (f.bus.streams.change id Channel.dropWriter)
  | .claim id next =>
    let (r, streams) := f.bus.streams.claim id
    onStreams f (next r) streams
  | .drain id output collected =>
    match f.bus.streams.read id with
    | (.pending, _) => none
    | (.chunk c, streams) => onStreams f (Work.drainChunk id output collected c) streams
    | (_, streams) => onStreams f (.dropReader id Work.done) streams
  | .dropReader id w => onStreams f w (f.bus.streams.change id Channel.dropReader)
  | .spawn task w =>
    some (.on (.running w), { f with
      bus := { f.bus with inFlight := f.bus.inFlight + 1 }
      tasks := f.tasks ++ [.running task] })

/-- One step of a program, unless it has to wait. -/
def step? (f : Floor σ) : Activity σ → Option (Stride σ × Floor σ)
  | .running w => workStep? f w
  | .asleep ends w => if ends ≤ f.clock then some (.on (.running w), f) else none
  | .emitting e next =>
    if e.isDone then some (.on (.running (next (.ok e.queued))), f)
    else (f.bus.emitStep? e).map fun (e, bus) => (.on (.emitting e next), { f with bus })
  | .writing chunk next =>
    match f.bus.streams.send chunk with
    | (.full, _) => none
    | (.sent, streams) => onStreams f (next (.ok ())) streams
    | (.refused e, streams) => onStreams f (next (.error e)) streams

end Activity

/-- What a dispatcher does. -/
inductive Post (σ : Type) where
  | idle
  | handling (d : Delivery) (a : Activity σ)
  /-- There will be no more deliveries. -/
  | over
  /-- The subscriber panicked. -/
  | crashed
  | aborted

/-- The dispatcher of a subscriber. -/
structure Dispatcher (σ : Type) where
  name : String
  deliver : Event → Work σ
  post : Post σ

/-- Whether a dispatcher has ended by itself. -/
def Dispatcher.hasEnded {σ : Type} (d : Dispatcher σ) : Bool :=
  match d.post with
  | .over | .crashed => true
  | _ => false

/-- One step of a dispatcher, unless it has to wait. -/
def Dispatcher.step? {σ : Type} (f : Floor σ) (d : Dispatcher σ) :
    Option (Dispatcher σ × Floor σ) :=
  match d.post with
  | .idle =>
    match f.bus.take? d.name with
    | some (delivery, bus) =>
      some ({ d with post := .handling delivery (.running (d.deliver delivery.event)) },
        { f with bus })
    | none =>
      if f.bus.isExhausted d.name then
        some ({ d with post := .over }, { f with bus := f.bus.desert d.name })
      else none
  | .handling delivery a =>
    match a.step? f with
    | none => none
    | some (.on a, f) => some ({ d with post := .handling delivery a }, f)
    | some (.ended (.ok ()), f) => some ({ d with post := .idle }, { f with bus := f.bus.succeed })
    | some (.ended (.failed e), f) =>
      some ({ d with post := .idle }, { f with bus := f.bus.fail f.clock d.name delivery e })
    | some (.ended (.panicked _), f) =>
      some ({ d with post := .crashed }, { f with bus := f.bus.desert d.name })
  | _ => none

/-- How far shutting down has come. -/
inductive Closing where
  /-- The bus runs. -/
  | running
  /-- Waiting for the work in flight. -/
  | settling (deadline : Nat)
  /-- Waiting for the dispatchers, one after another. -/
  | joining (deadline next aborted : Nat)
  /-- Waiting for tracked work. -/
  | draining (deadline aborted retries truncated : Nat)
  | closed (r : ShutdownReport)

/-- The bus with everything that works on it. -/
structure Exchange (σ : Type) where
  floor : Floor σ
  /-- Subscribers that have not been started. -/
  unstarted : List (String × (Event → Work σ))
  dispatchers : List (Dispatcher σ)
  /-- When each retry ticker ticks next. -/
  retryTicks : List Nat
  /-- When each sweep ticker ticks next. -/
  sweepTicks : List Nat
  closing : Closing

/-- A step of the exchange. -/
inductive Move where
  | dispatcher (i : Nat)
  | task (i : Nat)
  | retryTick (i : Nat)
  | requeue
  | sweepTick (i : Nat)
  | expire
  /-- A step of shutting down. -/
  | closing
  | wait (ms : Nat)
  | interrupt
  deriving Repr

/-- The time that tracked work has at least to see its streams end. -/
def truncationGrace : Nat := 100

namespace Exchange

variable {σ : Type}

/-- A bus without subscribers. -/
def fresh (policy : Policy) (world : σ) : Exchange σ :=
  ⟨⟨world, 0, false, Bus.fresh policy, []⟩, [], [], [], [], .running⟩

def bus (s : Exchange σ) : Bus := s.floor.bus

def clock (s : Exchange σ) : Nat := s.floor.clock

/-- Change the bus. -/
def onBus (s : Exchange σ) (f : Bus → Bus) : Exchange σ :=
  { s with floor := { s.floor with bus := f s.floor.bus } }

/-- Register a subscriber; it gets its deliveries once it is started. -/
def subscribe (s : Exchange σ) (name : String) (topics : List String) (deliver : Event → Work σ) :
    Outcome (Exchange σ) :=
  (s.bus.subscribe name topics).map fun bus =>
    { s with floor := { s.floor with bus }, unstarted := s.unstarted ++ [(name, deliver)] }

/-- Start a dispatcher for every subscriber that has none, and two tickers, which
tick at once. -/
def start (s : Exchange σ) : Exchange σ :=
  { s with
    unstarted := []
    dispatchers := s.dispatchers ++ s.unstarted.map fun (name, deliver) => ⟨name, deliver, .idle⟩
    retryTicks := s.retryTicks ++ [s.clock]
    sweepTicks := s.sweepTicks ++ [s.clock] }

/-! ## Steps -/

def dispatcherStep? (s : Exchange σ) (i : Nat) : Option (Exchange σ) :=
  s.dispatchers[i]?.bind fun d =>
    (d.step? s.floor).map fun (d, floor) =>
      { s with floor, dispatchers := s.dispatchers.set i d }

/-- One step of the tracked work at a position; work that ends is tracked no more. -/
def workOn? (s : Exchange σ) (i : Nat) (a : Activity σ) : Option (Exchange σ) :=
  (a.step? s.floor).map fun (stride, floor) =>
    match stride with
    | .on a => { s with floor := { floor with tasks := floor.tasks.set i a } }
    | .ended _ =>
      { s with floor := { floor with tasks := floor.tasks.eraseIdx i, bus := floor.bus.settle } }

def taskStep? (s : Exchange σ) (i : Nat) : Option (Exchange σ) :=
  s.floor.tasks[i]?.bind (s.workOn? i)

/-- A tick that is due comes again after a period of at least one millisecond. -/
def tick? (clock period : Nat) (ticks : List Nat) (i : Nat) : Option (List Nat) :=
  ticks[i]?.bind fun t => if t ≤ clock then some (ticks.set i (t + max period 1)) else none

def retryTick? (s : Exchange σ) (i : Nat) : Option (Exchange σ) :=
  (tick? s.clock s.bus.policy.retryInterval s.retryTicks i).map fun retryTicks =>
    { s.onBus (·.takeDue s.clock) with retryTicks }

def sweepTick? (s : Exchange σ) (i : Nat) : Option (Exchange σ) :=
  (tick? s.clock s.bus.policy.cleanupInterval s.sweepTicks i).map fun sweepTicks =>
    { s.onBus (·.sweep s.clock) with sweepTicks }

def requeue? (s : Exchange σ) : Option (Exchange σ) :=
  (s.bus.requeue? s.clock).map fun bus => s.onBus fun _ => bus

def expire? (s : Exchange σ) : Option (Exchange σ) :=
  s.bus.expire?.map fun bus => s.onBus fun _ => bus

/-- Begin to shut down: there are no more ticks. -/
def beginShutdown (s : Exchange σ) : Exchange σ :=
  { s with
    retryTicks := []
    sweepTicks := []
    closing := .settling (s.clock + s.bus.policy.shutdownGrace) }

/-- Whether no tick is under way. -/
def handsEmpty (s : Exchange σ) : Bool :=
  s.bus.requeuing.isEmpty && s.bus.expiring.isEmpty

/-- Discard the pending retries, truncate the streams, and give tracked work time
to see that. -/
def truncate (s : Exchange σ) (deadline aborted : Nat) : Exchange σ :=
  let (truncated, streams) := s.bus.streams.truncateAll
  { s.onBus (fun b => { b with retries := [], streams }) with
    closing := .draining (max deadline (s.clock + truncationGrace)) aborted
      s.bus.retries.length truncated }

/-- Abort the tracked work that still goes on; the answer is how much that was. -/
def abortTasks (s : Exchange σ) : Nat × Exchange σ :=
  let active := s.floor.tasks.length
  (active, { s with floor := { s.floor with
    bus := { s.floor.bus with inFlight := s.floor.bus.inFlight - active }
    tasks := [] } })

/-- One step of shutting down, unless it has to wait. -/
def closingStep? (s : Exchange σ) : Option (Exchange σ) :=
  match s.closing with
  | .running => none
  | .settling deadline =>
    if s.handsEmpty && (s.bus.inFlight == 0 || decide (deadline ≤ s.clock)) then
      some { s.onBus Bus.close with closing := .joining deadline 0 0 }
    else none
  | .joining deadline next aborted =>
    match s.dispatchers[next]? with
    | none => some (s.truncate deadline aborted)
    | some d =>
      if d.hasEnded then some { s with closing := .joining deadline (next + 1) aborted }
      else if deadline ≤ s.clock then
        some { s with
          dispatchers := s.dispatchers.set next { d with post := .aborted }
          closing := .joining deadline (next + 1) (aborted + 1) }
      else none
  | .draining deadline aborted retries truncated =>
    let (active, rest) := s.abortTasks
    if active = 0 ∨ deadline ≤ s.clock then
      some { rest with closing := .closed ⟨aborted, active, retries, truncated, s.bus.stats⟩ }
    else none
  | .closed _ => none

/-- One step, if it can be taken. -/
def step? (s : Exchange σ) : Move → Option (Exchange σ)
  | .dispatcher i => s.dispatcherStep? i
  | .task i => s.taskStep? i
  | .retryTick i => s.retryTick? i
  | .requeue => s.requeue?
  | .sweepTick i => s.sweepTick? i
  | .expire => s.expire?
  | .closing => s.closingStep?
  | .wait ms => some { s with floor := { s.floor with clock := s.clock + ms } }
  | .interrupt => some { s with floor := { s.floor with interrupted := true } }

/-! ## One order of steps -/

/-- The first step that can be taken of some tracked work, which begins at position `i`. -/
def firstOf? (s : Exchange σ) (i : Nat) : List (Activity σ) → Option (Exchange σ)
  | [] => none
  | a :: rest => s.workOn? i a <|> s.firstOf? (i + 1) rest

/-- The first step of tracked work that can be taken. -/
def firstTaskStep? (s : Exchange σ) : Option (Exchange σ) :=
  s.firstOf? 0 s.floor.tasks

/-- Steps of dispatchers. -/
def dispatcherMoves (s : Exchange σ) : List Move :=
  (List.range s.dispatchers.length).map Move.dispatcher

/-- Steps of ticks and of shutting down. -/
def tickMoves (s : Exchange σ) : List Move :=
  [.requeue, .expire, .closing]
    ++ (List.range s.retryTicks.length).map Move.retryTick
    ++ (List.range s.sweepTicks.length).map Move.sweepTick

/-- The times at which something may happen by itself. -/
def alarms (s : Exchange σ) : List Nat :=
  let sleeping := s.dispatchers.filterMap fun d =>
    match d.post with
    | .handling _ a => a.wakes?
    | _ => none
  let tracked := s.floor.tasks.filterMap Activity.wakes?
  let deadline := match s.closing with
    | .settling t | .joining t _ _ | .draining t _ _ _ => [t]
    | _ => []
  sleeping ++ tracked ++ s.retryTicks ++ s.sweepTicks ++ deadline

/-- The earliest of some times after now. -/
def earliest (now : Nat) (times : List Nat) : Option Nat :=
  (times.filter (now < ·)).min?

/-- The step taken next: of dispatchers, of tracked work, of ticks. Time may also have
to pass for the sake of the times in `also`. -/
def next? (s : Exchange σ) (also : List Nat) : Option (Exchange σ) :=
  s.dispatcherMoves.findSome? s.step? <|> s.firstTaskStep? <|> s.tickMoves.findSome? s.step?
    <|> (earliest s.clock (s.alarms ++ also)).bind fun t => s.step? (.wait (t - s.clock))

/-- Whether no delivery is on its way. Retries do not count if they are left waiting,
nor does the mailbox of a subscriber that has not been started: nothing takes from it. -/
def isQuiet (s : Exchange σ) (leaveRetries : Bool) : Bool :=
  s.handsEmpty && (leaveRetries || s.bus.retries.isEmpty)
    && (s.bus.mailboxes.all fun (name, m) => m.items.isEmpty || s.unstarted.any (·.1 == name))
    && s.dispatchers.all fun d =>
      match d.post with
      | .handling _ _ => false
      | _ => true

/-- Take steps until no delivery is on its way, at most `fuel` steps. -/
def runQuiet (s : Exchange σ) (leaveRetries : Bool) : Nat → Exchange σ
  | 0 => s
  | fuel + 1 =>
    if s.isQuiet leaveRetries then s
    else
      match s.next? [] with
      | some s => s.runQuiet leaveRetries fuel
      | none => s

/-- Take steps until an emission has served all recipients, at most `fuel` steps. -/
def finishEmission (s : Exchange σ) (e : Emission) : Nat → Nat × Exchange σ
  | 0 => (e.queued, s)
  | fuel + 1 =>
    if e.isDone then (e.queued, s)
    else
      match s.bus.emitStep? e with
      | some (e, bus) => finishEmission (s.onBus fun _ => bus) e fuel
      | none =>
        match s.next? [] with
        | some s => finishEmission s e fuel
        | none => (e.queued, s)

/-- Publish an event from outside. -/
def emit (s : Exchange σ) (e : Event) (fuel : Nat) : Except Fault Nat × Exchange σ :=
  match s.bus.accept e with
  | .error fault => (.error fault, s)
  | .ok (emission, bus) =>
    let (queued, s) := (s.onBus fun _ => bus).finishEmission emission fuel
    (.ok queued, s)

/-- Take steps until the bus is shut down, at most `fuel` steps. -/
def runClosed (s : Exchange σ) : Nat → Exchange σ
  | 0 => s
  | fuel + 1 =>
    match s.closing with
    | .closed _ => s
    | _ =>
      match s.next? [] with
      | some s => s.runClosed fuel
      | none => s

/-- What shutting down found, once it is over. -/
def shutdownReport? (s : Exchange σ) : Option ShutdownReport :=
  match s.closing with
  | .closed r => some r
  | _ => none

/-- Shut the bus down. -/
def shutdown (s : Exchange σ) (fuel : Nat) : Exchange σ :=
  s.beginShutdown.runClosed fuel

end Exchange

end Pipeworks
