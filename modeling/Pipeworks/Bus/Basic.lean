import Pipeworks.Bus.Retry
import Pipeworks.Bus.Stats
import Pipeworks.Bus.Stream

/-!
# The state of the bus

Every subscriber has a mailbox for the deliveries that wait for it. A delivery
that was queued is in one place at a time: in a mailbox, with its subscriber,
among the retries, in the hands of a tick that moves it, counted as delivered,
or counted as dead. Each function below is one indivisible change of the state.
-/

namespace Pipeworks

/-- The deliveries that wait for a subscriber. -/
structure Mailbox where
  items : List Delivery
  /-- Whether those who look for the mailbox find it. -/
  listed : Bool
  /-- Whether somebody takes deliveries out of it. -/
  receiving : Bool
  /-- Emissions that hold on to it while they wait for room. -/
  senders : Nat
  deriving Repr

/-- The state of the bus. -/
structure Bus where
  policy : Policy
  /-- The subscribers of each topic, in the order of their subscriptions. -/
  topics : List (String × List String)
  mailboxes : List (String × Mailbox)
  retries : Retries
  /-- Retries that were due and are being queued again. -/
  requeuing : Retries
  /-- Letters of stale retries that are being recorded. -/
  expiring : List DeadLetter
  /-- The most recent dead letters, the oldest first. -/
  deadLetters : List DeadLetter
  stats : Stats
  /-- Deliveries on their way or being handled, and tracked work. -/
  inFlight : Nat
  closed : Bool
  streams : Streams
  deriving Repr

/-- An event on its way into the mailboxes of its recipients. -/
structure Emission where
  serial : Nat
  event : Event
  /-- The recipients not served yet. -/
  left : List String
  /-- The recipient whose mailbox is being waited for. -/
  holding : Option String
  /-- The number of mailboxes it was put into. -/
  queued : Nat
  deriving Repr

/-- What shutting the bus down found and discarded. -/
structure ShutdownReport where
  dispatchersAborted : Nat
  tasksAborted : Nat
  retriesDiscarded : Nat
  streamsTruncated : Nat
  stats : Stats
  deriving Repr

/-- The report as JSON. -/
def ShutdownReport.toJson (r : ShutdownReport) : Json :=
  .object [("dispatchers_aborted", .integer r.dispatchersAborted),
    ("tasks_aborted", .integer r.tasksAborted), ("retries_discarded", .integer r.retriesDiscarded),
    ("streams_truncated", .integer r.streamsTruncated), ("stats", r.stats.toJson)]

namespace Mailbox

def fresh : Mailbox := ⟨[], true, true, 0⟩

end Mailbox

namespace Bus

/-- A bus without subscribers. -/
def fresh (policy : Policy) : Bus where
  policy
  topics := []
  mailboxes := []
  retries := []
  requeuing := []
  expiring := []
  deadLetters := []
  stats := Stats.zero
  inFlight := 0
  closed := false
  streams := Streams.empty

/-- The room in every mailbox. -/
def capacity (b : Bus) : Nat :=
  max b.policy.queueCapacity 1

def mailbox? (b : Bus) (name : String) : Option Mailbox :=
  b.mailboxes.lookup name

/-- Change the mailbox of a subscriber. -/
def changeMailbox (b : Bus) (name : String) (f : Mailbox → Mailbox) : Bus :=
  { b with mailboxes := b.mailboxes.map fun m => if m.1 = name then (m.1, f m.2) else m }

/-- Whether the mailbox of a subscriber can be found. -/
def isLive (b : Bus) (name : String) : Bool :=
  match b.mailbox? name with
  | some m => m.listed
  | none => false

/-! ## Subscriptions -/

/-- Add a subscriber to a topic, once. -/
def addToTopic (name topic : String) : List (String × List String) → List (String × List String)
  | [] => [(topic, [name])]
  | (t, names) :: rest =>
    if t = topic then (t, if names.contains name then names else names ++ [name]) :: rest
    else (t, names) :: addToTopic name topic rest

/-- Give a subscriber a mailbox and put it on its topics. -/
def subscribe (b : Bus) (name : String) (topics : List String) : Outcome Bus :=
  if b.isLive name then .failed (.config (.subscribedTwice name))
  else
    (reserve b.capacity).map fun _ =>
      { b with
        mailboxes := b.mailboxes ++ [(name, Mailbox.fresh)]
        topics := topics.foldl (fun table topic => addToTopic name topic table) b.topics }

/-- The subscribers of a topic, in the order of their subscriptions. -/
def subscribersOf (b : Bus) (topic : String) : List String :=
  (b.topics.lookup topic).getD []

/-! ## Emissions -/

/-- Accept an event, unless the bus is shut down. -/
def accept (b : Bus) (e : Event) : Except Fault (Emission × Bus) :=
  if b.closed then .error (.run .busShutDown)
  else
    let recipients := (b.subscribersOf e.topic).filter e.isFor
    .ok (⟨b.stats.emitted, e, recipients, none, 0⟩,
      { b with stats := { b.stats with emitted := b.stats.emitted + 1 } })

/-- One step of an emission: find the next mailbox, or put the event into the one
that was found once there is room. Nothing happens while the mailbox is full, or
when all recipients are served. -/
def emitStep? (b : Bus) (e : Emission) : Option (Emission × Bus) :=
  match e.holding with
  | none =>
    match e.left with
    | [] => none
    | name :: left =>
      if b.isLive name then
        some ({ e with left, holding := some name },
          { b.changeMailbox name (fun m => { m with senders := m.senders + 1 }) with
            inFlight := b.inFlight + 1 })
      else some ({ e with left }, b)
  | some name =>
    match b.mailbox? name with
    | none => some ({ e with holding := none }, { b with inFlight := b.inFlight - 1 })
    | some m =>
      if !m.receiving then
        some ({ e with holding := none },
          { b.changeMailbox name (fun m => { m with senders := m.senders - 1 }) with
            inFlight := b.inFlight - 1 })
      else if m.items.length < b.capacity then
        let d : Delivery := ⟨e.serial, e.event, 1, none⟩
        some ({ e with holding := none, queued := e.queued + 1 },
          b.changeMailbox name fun m =>
            { m with items := m.items ++ [d], senders := m.senders - 1 })
      else none

/-! ## Deliveries -/

/-- Take the first delivery out of a mailbox. -/
def take? (b : Bus) (name : String) : Option (Delivery × Bus) :=
  match b.mailbox? name with
  | none => none
  | some m =>
    match m.items with
    | [] => none
    | d :: _ => some (d, b.changeMailbox name fun m => { m with items := m.items.tail })

/-- Whether no delivery can come into a mailbox any more and none is in it. -/
def isExhausted (b : Bus) (name : String) : Bool :=
  match b.mailbox? name with
  | none => true
  | some m => m.items.isEmpty && !m.listed && m.senders == 0

/-- Nobody takes deliveries out of a mailbox any more; those in it are lost. -/
def desert (b : Bus) (name : String) : Bus :=
  b.changeMailbox name fun m => { m with items := [], receiving := false }

/-- One unit of work in flight is done. -/
def settle (b : Bus) : Bus :=
  { b with inFlight := b.inFlight - 1 }

/-- Record a dead letter; the oldest goes when there is no room. -/
def bury (b : Bus) (l : DeadLetter) : Bus :=
  let kept := if max b.policy.deadLetterCapacity 1 ≤ b.deadLetters.length then b.deadLetters.tail
    else b.deadLetters
  { b with
    deadLetters := kept ++ [l]
    stats := { b.stats with deadLettered := b.stats.deadLettered + 1 } }

/-- A delivery succeeded. -/
def succeed (b : Bus) : Bus :=
  { b with stats := { b.stats with delivered := b.stats.delivered + 1 } }.settle

/-- A delivery to a subscriber failed: it will be tried again, or is given up. -/
def fail (b : Bus) (now : Nat) (name : String) (d : Delivery) (e : Fault) : Bus :=
  match b.policy.afterFailure now name d e.message with
  | .retry r => { b with retries := b.retries ++ [r] }.settle
  | .deadLetter l => (b.bury l).settle

/-! ## Retries -/

/-- Take the retries that are due into the hand. -/
def takeDue (b : Bus) (now : Nat) : Bus :=
  let (due, rest) := b.retries.takeDue now
  { b with retries := rest, requeuing := b.requeuing ++ due }

/-- What is said about a retry whose mailbox had no room. -/
def queueFull : String := "subscriber queue full"

/-- Queue the first retry in the hand again. Without a mailbox it goes back as it
is; without room in the mailbox it goes back for a later time. -/
def requeue? (b : Bus) (now : Nat) : Option Bus :=
  match b.requeuing with
  | [] => none
  | r :: rest =>
    let b := { b with requeuing := rest }
    match b.mailbox? r.subscriber with
    | none => some { b with retries := b.retries ++ [r] }
    | some m =>
      if !m.listed then some { b with retries := b.retries ++ [r] }
      else if m.receiving && decide (m.items.length < b.capacity) then
        let d : Delivery := ⟨r.serial, r.event, r.attempts + 1, some r.firstFailure⟩
        some { b.changeMailbox r.subscriber (fun m => { m with items := m.items ++ [d] }) with
          inFlight := b.inFlight + 1
          stats := { b.stats with retried := b.stats.retried + 1 } }
      else
        some { b with retries := b.retries ++ [{ r with
          maxAttempts := b.policy.maxAttempts
          due := now + b.policy.retryInterval
          lastError := queueFull }] }

/-! ## Clean-up -/

/-- The letter of a stale retry. -/
def staleLetter (b : Bus) (r : Retry) : DeadLetter :=
  r.giveUp (if b.isLive r.subscriber then "retry expired" else "subscriber gone")

/-- Remove the disposable streams, and take the stale retries into the hand. -/
def sweep (b : Bus) (now : Nat) : Bus :=
  let (stale, kept) := b.retries.purge now b.policy.retryTtl b.isLive
  { b with
    streams := (b.streams.cleanup now b.policy.streamTtl).2
    retries := kept
    expiring := b.expiring ++ stale.map b.staleLetter }

/-- Record the first stale retry in the hand. -/
def expire? (b : Bus) : Option Bus :=
  match b.expiring with
  | [] => none
  | l :: rest => some ({ b with expiring := rest }.bury l)

/-! ## The end -/

/-- Accept no more events and let no mailbox be found. -/
def close (b : Bus) : Bus :=
  { b with
    closed := true
    mailboxes := b.mailboxes.map fun m => (m.1, { m.2 with listed := false }) }

end Bus

/-- Whether an emission has served all recipients. -/
def Emission.isDone (e : Emission) : Bool :=
  e.left.isEmpty && e.holding.isNone

end Pipeworks
