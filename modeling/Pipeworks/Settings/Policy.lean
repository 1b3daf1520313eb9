import Pipeworks.Config.Value
import Pipeworks.Fault

/-!
# The policy of the message bus

How often a delivery is tried, how long everything may wait, and how much is
kept. Times are in milliseconds. `Policy.check` accepts the policies that the
bus can work with.
-/

namespace Pipeworks

/-- Delivery, retry and clean-up policy of the message bus. -/
structure Policy where
  maxAttempts : Nat
  retryDelay : Nat
  /-- Growth of the delay from one retry to the next. -/
  multiplier : Float
  maxRetryDelay : Nat
  retryInterval : Nat
  cleanupInterval : Nat
  streamTtl : Nat
  retryTtl : Nat
  /-- Chunks kept for the reader of a stream. -/
  streamCapacity : Nat
  /-- Deliveries kept for a subscriber. -/
  queueCapacity : Nat
  shutdownGrace : Nat
  /-- Dead letters kept for inspection. -/
  deadLetterCapacity : Nat
  /-- The component that inputs are read from. -/
  input : Option String
  deriving Repr

namespace Policy

/-- The policy of a bus that is not configured. -/
def standard : Policy where
  maxAttempts := 3
  retryDelay := 200
  multiplier := 2.0
  maxRetryDelay := 5000
  retryInterval := 50
  cleanupInterval := 1000
  streamTtl := 60000
  retryTtl := 300000
  streamCapacity := 64
  queueCapacity := 256
  shutdownGrace := 2000
  deadLetterCapacity := 1000
  input := none

instance : Inhabited Policy := ⟨standard⟩

/-- Refuse a policy the bus cannot work with. -/
def check (p : Policy) : Except Fault Unit :=
  if p.maxAttempts = 0 then .error (.config .noAttempts)
  else if p.streamCapacity = 0 ∨ p.queueCapacity = 0 ∨ p.deadLetterCapacity = 0 then
    .error (.config .noCapacity)
  else if p.retryInterval = 0 ∨ p.cleanupInterval = 0 then .error (.config .noInterval)
  else if !p.multiplier.isFinite || p.multiplier < 1.0 then .error (.config .multiplierTooSmall)
  else .ok ()

/-- The times of a policy, in the order in which they are listed. -/
def times (p : Policy) : List Nat :=
  [p.retryDelay, p.maxRetryDelay, p.retryInterval, p.cleanupInterval, p.streamTtl, p.retryTtl,
    p.shutdownGrace]

end Policy

/-- A part of the policy that is a whole number. -/
inductive Count where
  | maxAttempts
  | retryDelay
  | maxRetryDelay
  | retryInterval
  | cleanupInterval
  | streamTtl
  | retryTtl
  | streamCapacity
  | queueCapacity
  | shutdownGrace
  | deadLetterCapacity
  deriving DecidableEq, Repr

/-- A part of the policy that can be set. -/
inductive Knob where
  | count (c : Count)
  | multiplier
  | input
  deriving DecidableEq, Repr

namespace Count

/-- The key of a whole number. -/
def key : Count → String
  | .maxAttempts => "max_attempts"
  | .retryDelay => "retry_delay_ms"
  | .maxRetryDelay => "max_retry_delay_ms"
  | .retryInterval => "retry_interval_ms"
  | .cleanupInterval => "cleanup_interval_ms"
  | .streamTtl => "stream_ttl_ms"
  | .retryTtl => "retry_ttl_ms"
  | .streamCapacity => "stream_capacity"
  | .queueCapacity => "queue_capacity"
  | .shutdownGrace => "shutdown_grace_ms"
  | .deadLetterCapacity => "dead_letter_capacity"

/-- The greatest number of attempts fits 32 bits, all else 64 bits. -/
def limit : Count → Nat
  | .maxAttempts => 4294967295
  | _ => 18446744073709551615

/-- The number in a policy. -/
def get (p : Policy) : Count → Nat
  | .maxAttempts => p.maxAttempts
  | .retryDelay => p.retryDelay
  | .maxRetryDelay => p.maxRetryDelay
  | .retryInterval => p.retryInterval
  | .cleanupInterval => p.cleanupInterval
  | .streamTtl => p.streamTtl
  | .retryTtl => p.retryTtl
  | .streamCapacity => p.streamCapacity
  | .queueCapacity => p.queueCapacity
  | .shutdownGrace => p.shutdownGrace
  | .deadLetterCapacity => p.deadLetterCapacity

/-- The policy with the number replaced. -/
def set (p : Policy) (n : Nat) : Count → Policy
  | .maxAttempts => { p with maxAttempts := n }
  | .retryDelay => { p with retryDelay := n }
  | .maxRetryDelay => { p with maxRetryDelay := n }
  | .retryInterval => { p with retryInterval := n }
  | .cleanupInterval => { p with cleanupInterval := n }
  | .streamTtl => { p with streamTtl := n }
  | .retryTtl => { p with retryTtl := n }
  | .streamCapacity => { p with streamCapacity := n }
  | .queueCapacity => { p with queueCapacity := n }
  | .shutdownGrace => { p with shutdownGrace := n }
  | .deadLetterCapacity => { p with deadLetterCapacity := n }

end Count

namespace Knob

/-- The parts of a policy, in the order in which they are written. -/
def all : List Knob :=
  [.count .maxAttempts, .count .retryDelay, .multiplier, .count .maxRetryDelay,
    .count .retryInterval, .count .cleanupInterval, .count .streamTtl, .count .retryTtl,
    .count .streamCapacity, .count .queueCapacity, .count .shutdownGrace,
    .count .deadLetterCapacity, .input]

/-- The key of a part. -/
def key : Knob → String
  | .count c => c.key
  | .multiplier => "backoff_multiplier"
  | .input => "input"

/-- The part with a key. -/
def ofKey? (key : String) : Option Knob :=
  all.find? (·.key == key)

/-- The part of a policy as JSON. -/
def toJson (p : Policy) : Knob → Json
  | .count c => .integer (c.get p)
  | .multiplier => .float p.multiplier
  | .input => (p.input.map Json.string).getD .null

/-- What messages say a part must be. -/
def expected : Knob → String
  | .count _ => "a non-negative integer"
  | .multiplier => "a number"
  | .input => "a component name"

/-- The policy with a part set to a configuration value, if that has the right
type and range. -/
def assign? (p : Policy) (v : Config.Value) : Knob → Option Policy
  | .count c =>
    v.integer?.bind fun n =>
      if 0 ≤ n ∧ n ≤ c.limit then some (c.set p n.toNat) else none
  | .multiplier => v.float?.map fun x => { p with multiplier := x }
  | .input => (v.text? <|> v.reference?).map fun name => { p with input := some name }

end Knob

/-- The policy as JSON. -/
def Policy.toJson (p : Policy) : Json :=
  .object (Knob.all.map fun k => (k.key, k.toJson p))

end Pipeworks
