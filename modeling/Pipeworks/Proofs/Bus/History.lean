import Pipeworks.Bus.Exchange

/-!
# The history of a bus

A bus under any schedule: subscriptions, calls from outside that publish events,
steps of the exchange and the beginning of its end, in any order. Beside the
exchange an audit keeps the calls under way and the history, which has one note
for everything that happens to an event or to a delivery. The notes of a step
are read off the state before it; they never influence the exchange.
-/

namespace Pipeworks

/-- What happened to an event, or to its delivery to one subscriber. -/
inductive Note where
  /-- An event was accepted; the emission has its number and its recipients. -/
  | accepted (e : Emission)
  /-- Whoever published the event got the number of mailboxes it was put into. -/
  | answered (e : Emission)
  /-- An emission put a delivery into a mailbox. -/
  | queued (name : String) (d : Delivery)
  /-- A subscriber began to handle a delivery. -/
  | begun (name : String) (d : Delivery)
  | delivered (name : String) (d : Delivery)
  /-- A delivery failed and shall be tried again. -/
  | postponed (r : Retry)
  /-- A delivery failed for the last time. -/
  | gaveUp (l : DeadLetter)
  /-- A retry was put into a mailbox. -/
  | requeued (r : Retry)
  /-- A stale retry became a dead letter. -/
  | expired (l : DeadLetter)
  /-- A subscriber panicked on a delivery, or was aborted in it. -/
  | lost (name : String) (d : Delivery)
  /-- A delivery was in the mailbox of a subscriber that panicked. -/
  | dropped (name : String) (d : Delivery)
  /-- A retry was pending when the bus was shut down. -/
  | discarded (r : Retry)

namespace Bus

/-- The deliveries in a mailbox. -/
def contents (b : Bus) (name : String) : List Delivery :=
  ((b.mailbox? name).map (·.items)).getD []

/-- What a step of an emission notes. -/
def emitNotes (b : Bus) (e : Emission) : List Note :=
  match e.holding, b.emitStep? e with
  | some name, some (after, _) =>
    if e.queued < after.queued then [.queued name ⟨e.serial, e.event, 1, none⟩] else []
  | _, _ => []

/-- What the failure of a delivery notes. -/
def failureNote (b : Bus) (now : Nat) (name : String) (d : Delivery) (e : Fault) : Note :=
  match b.policy.afterFailure now name d e.message with
  | .retry r => .postponed r
  | .deadLetter l => .gaveUp l

/-- What queueing the first retry in the hand notes. -/
def requeueNotes (b : Bus) (now : Nat) : List Note :=
  match b.requeuing, b.requeue? now with
  | r :: _, some after => if b.stats.retried < after.stats.retried then [.requeued r] else []
  | _, _ => []

/-- What recording the first stale retry in the hand notes. -/
def expireNotes (b : Bus) : List Note :=
  b.expiring.head?.toList.map .expired

end Bus

variable {σ : Type}

def Activity.notes (b : Bus) : Activity σ → List Note
  | .running (.emit e _) =>
    match b.accept e with
    | .ok (emission, _) => [.accepted emission]
    | .error _ => []
  | .emitting e _ => if e.isDone then [.answered e] else b.emitNotes e
  | _ => []

namespace Dispatcher

def notes (f : Floor σ) (d : Dispatcher σ) : List Note :=
  match d.post with
  | .idle =>
    match f.bus.take? d.name with
    | some (delivery, _) => [.begun d.name delivery]
    | none => []
  | .handling delivery a =>
    match a.step? f with
    | none => []
    | some (.on _, _) => a.notes f.bus
    | some (.ended (.ok ()), _) => [.delivered d.name delivery]
    | some (.ended (.failed e), f) => [f.bus.failureNote f.clock d.name delivery e]
    | some (.ended (.panicked _), f) =>
      .lost d.name delivery :: (f.bus.contents d.name).map (.dropped d.name)
  | _ => []

/-- What aborting a dispatcher notes. -/
def abortNotes (d : Dispatcher σ) : List Note :=
  match d.post with
  | .handling delivery _ => [.lost d.name delivery]
  | _ => []

/-- Whether the subscriber panicked. -/
def hasCrashed (d : Dispatcher σ) : Bool :=
  match d.post with
  | .crashed => true
  | _ => false

end Dispatcher

namespace Exchange

/-- What a step of shutting down notes. -/
def closingNotes (s : Exchange σ) : List Note :=
  match s.closing with
  | .joining deadline next _ =>
    match s.dispatchers[next]? with
    | none => s.bus.retries.map .discarded
    | some d => if !d.hasEnded && decide (deadline ≤ s.clock) then d.abortNotes else []
  | _ => []

/-- What a step of the exchange notes. -/
def notes (s : Exchange σ) : Move → List Note
  | .dispatcher i => (s.dispatchers[i]?.map (·.notes s.floor)).getD []
  | .task i => (s.floor.tasks[i]?.map (·.notes s.bus)).getD []
  | .requeue => s.bus.requeueNotes s.clock
  | .expire => s.bus.expireNotes
  | .closing => s.closingNotes
  | _ => []

/-- Whether the bus has not begun to shut down. -/
def isRunning (s : Exchange σ) : Bool :=
  match s.closing with
  | .running => true
  | _ => false

/-- Whether no subscriber has panicked on a delivery. -/
def isCalm (s : Exchange σ) : Bool :=
  s.dispatchers.all fun d => !d.hasCrashed

end Exchange

/-- An exchange with the calls from outside that are under way, and its history. -/
structure Audit (σ : Type) where
  exchange : Exchange σ
  /-- The emissions of calls from outside. -/
  callers : List Emission
  /-- All notes so far, the earliest first. -/
  history : List Note

/-- Something that may happen to a bus. -/
inductive Act (σ : Type) where
  | subscribe (name : String) (topics : List String) (deliver : Event → Work σ)
  | start
  /-- A call from outside begins to publish an event. -/
  | publish (e : Event)
  /-- A call from outside takes a step. -/
  | serve (i : Nat)
  /-- The world changes from outside. -/
  | touch (f : σ → σ)
  | move (m : Move)
  | shutdown

namespace Audit

/-- A bus without subscribers. -/
def fresh (policy : Policy) (world : σ) : Audit σ :=
  ⟨Exchange.fresh policy world, [], []⟩

def bus (s : Audit σ) : Bus := s.exchange.bus

/-- A subscription; it is refused once the bus shuts down. -/
def subscribe (s : Audit σ) (name : String) (topics : List String) (deliver : Event → Work σ) :
    Audit σ :=
  if s.exchange.isRunning then
    match s.exchange.subscribe name topics deliver with
    | .ok exchange => { s with exchange }
    | _ => s
  else s

/-- A call from outside begins; it fails at once when the bus is closed. -/
def publish (s : Audit σ) (e : Event) : Audit σ :=
  match s.bus.accept e with
  | .ok (emission, bus) =>
    ⟨s.exchange.onBus fun _ => bus, s.callers ++ [emission], s.history ++ [.accepted emission]⟩
  | .error _ => s

/-- A step of the call at a position, unless it has to wait. -/
def serve (s : Audit σ) (i : Nat) : Audit σ :=
  match s.callers[i]? with
  | none => s
  | some e =>
    if e.isDone then
      { s with callers := s.callers.eraseIdx i, history := s.history ++ [.answered e] }
    else
      match s.bus.emitStep? e with
      | none => s
      | some (after, bus) =>
        ⟨s.exchange.onBus fun _ => bus, s.callers.set i after, s.history ++ s.bus.emitNotes e⟩

def move (s : Audit σ) (m : Move) : Audit σ :=
  match s.exchange.step? m with
  | none => s
  | some exchange => { s with exchange, history := s.history ++ s.exchange.notes m }

/-- What happens next; an act that is not possible changes nothing. -/
def act (s : Audit σ) : Act σ → Audit σ
  | .subscribe name topics deliver => s.subscribe name topics deliver
  | .start => if s.exchange.isRunning then { s with exchange := s.exchange.start } else s
  | .publish e => s.publish e
  | .serve i => s.serve i
  | .touch f =>
    { s with exchange := { s.exchange with
        floor := { s.exchange.floor with world := f s.exchange.floor.world } } }
  | .move m => s.move m
  | .shutdown =>
    if s.exchange.isRunning then { s with exchange := s.exchange.beginShutdown } else s

/-- A bus with a policy after a schedule of acts. -/
def play (policy : Policy) (world : σ) (acts : List (Act σ)) : Audit σ :=
  acts.foldl act (fresh policy world)

theorem play_concat (policy : Policy) (world : σ) (acts : List (Act σ)) (a : Act σ) :
    play policy world (acts ++ [a]) = (play policy world acts).act a :=
  List.foldl_append

end Audit

end Pipeworks
