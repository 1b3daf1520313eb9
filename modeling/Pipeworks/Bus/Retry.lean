import Pipeworks.Bus.Event
import Pipeworks.Settings.Policy

/-!
# Retries and dead letters

A delivery that fails is tried again after a delay that grows with each failure,
until the policy's attempts are used up; then it becomes a dead letter. Times
are readings of one clock, in milliseconds.
-/

namespace Pipeworks

/-- An event on its way to a subscriber. The serial number is that of the event's
emission. -/
structure Delivery where
  serial : Nat
  event : Event
  attempt : Nat
  firstFailure : Option Nat
  deriving Repr

/-- A failed delivery that waits for its next attempt. -/
structure Retry where
  serial : Nat
  event : Event
  subscriber : String
  /-- Attempts made so far. -/
  attempts : Nat
  maxAttempts : Nat
  /-- The earliest time of the next attempt. -/
  due : Nat
  firstFailure : Nat
  lastError : String
  deriving Repr

/-- A delivery that was given up. -/
structure DeadLetter where
  serial : Nat
  event : Event
  subscriber : String
  attempts : Nat
  error : String
  deriving Repr

/-- Give up a retry for a reason. -/
def Retry.giveUp (r : Retry) (reason : String) : DeadLetter :=
  ⟨r.serial, r.event, r.subscriber, r.attempts, reason ++ " (last error: " ++ r.lastError ++ ")"⟩

/-- `x ^ n` by repeated squaring, multiplied into `acc`. -/
def powerInto (acc x : Float) (n : Nat) : Float :=
  let acc := if n % 2 = 1 then acc * x else acc
  if n / 2 = 0 then acc else powerInto acc (x * x) (n / 2)
termination_by n
decreasing_by omega

/-- The greatest exponent of a delay, `2 ^ 31 - 1`. -/
def maxExponent : Nat := 2147483647

/-- The delay after a number of failures: the first delay times a power of the
multiplier, at most the greatest delay of the policy. -/
def Policy.backoff (p : Policy) (attempts : Nat) : Nat :=
  let delay := p.retryDelay.toFloat * powerInto 1.0 p.multiplier (min (attempts - 1) maxExponent)
  if delay.isNaN || p.maxRetryDelay.toFloat ≤ delay then p.maxRetryDelay
  else delay.toUInt64.toNat

/-- What follows a failed delivery. -/
inductive Aftermath where
  | retry (r : Retry)
  | deadLetter (l : DeadLetter)
  deriving Repr

/-- What follows when the delivery to a subscriber fails at the time `now`. -/
def Policy.afterFailure (p : Policy) (now : Nat) (subscriber : String) (d : Delivery)
    (error : String) : Aftermath :=
  if p.maxAttempts ≤ d.attempt then
    .deadLetter ⟨d.serial, d.event, subscriber, d.attempt, error⟩
  else
    .retry {
      serial := d.serial
      event := d.event
      subscriber
      attempts := d.attempt
      maxAttempts := p.maxAttempts
      due := now + p.backoff d.attempt
      firstFailure := d.firstFailure.getD now
      lastError := error }

/-- The retries that wait, in the order in which they came. -/
abbrev Retries := List Retry

namespace Retries

/-- The retries that are due, and the others. -/
def takeDue (rs : Retries) (now : Nat) : Retries × Retries :=
  rs.partition fun r => r.due ≤ now

/-- Whether a retry is older than `ttl` or has no live subscriber. -/
def isStale (now ttl : Nat) (live : String → Bool) (r : Retry) : Bool :=
  decide (ttl < now - r.firstFailure) || !live r.subscriber

/-- The stale retries, and the others. -/
def purge (rs : Retries) (now ttl : Nat) (live : String → Bool) : Retries × Retries :=
  rs.partition (isStale now ttl live)

end Retries

end Pipeworks
