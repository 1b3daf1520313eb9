import Pipeworks.Run.Context
import Pipeworks.Run.Summary

/-!
# Running components as a chain

A worker pulls an input, passes it through every processor in document order and
hands the result to every output; an input that some processor fails on is left
out. An interruption is seen before and after each pull. Meanwhile the main task
watches: when the run is interrupted, it gives the worker a time of grace to stop
and then goes on without it.

`Chain.step?` is one step of the worker or of the main task; `Chain.run` takes
the steps in one particular order.
-/

namespace Pipeworks

/-- What a chain is made of. -/
structure Line (σ : Type) where
  inputName : String
  input : Option (Call σ Pulled)
  processors : List (String × Processor σ)
  outputs : List (String × Output σ)
  exitToken : String
  /-- How long an interrupted run waits for its worker. -/
  grace : Nat

/-- Where the worker is. A call goes on until a time and then has its outcome. -/
inductive Place (σ : Type) where
  /-- About to pull. -/
  | ready
  | pulling (ends : Nat) (o : Outcome Pulled)
  /-- About to call the first of the processors. -/
  | processing (left : List (String × Processor σ)) (value : Json)
  | inProcessor (ends : Nat) (name : String) (o : Outcome Json) (left : List (String × Processor σ))
  /-- About to call the first of the outputs. -/
  | delivering (left : List (String × Output σ)) (value : Json)
  | inOutput (ends : Nat) (name : String) (o : Outcome Unit) (left : List (String × Output σ))
    (value : Json)
  | stopped (reason : ExitReason)

/-- Whether a component is being called. -/
def Place.inCall {σ : Type} : Place σ → Bool
  | .pulling .. | .inProcessor .. | .inOutput .. => true
  | _ => false

/-- When the call that goes on ends. -/
def Place.ends? {σ : Type} : Place σ → Option Nat
  | .pulling ends _ | .inProcessor ends _ _ _ | .inOutput ends _ _ _ _ => some ends
  | _ => none

/-- What the main task does. -/
inductive Watch where
  | watching
  /-- Waiting for the worker of an interrupted run. -/
  | settling (deadline : Nat)
  /-- About to close the components; `inTime` tells whether the worker stopped. -/
  | leaving (exit : ExitReason) (inTime : Bool)
  deriving Repr

/-- The state of a run as a chain. -/
structure Chain (σ : Type) where
  place : Place σ
  watch : Watch
  clock : Nat
  interrupted : Bool
  /-- Inputs taken. -/
  iterations : Nat
  world : σ

/-- A step of a run as a chain. -/
inductive ChainStep where
  | worker
  /-- The main task sees the interruption. -/
  | notice
  /-- The main task sees that the worker has stopped. -/
  | join
  /-- The main task has waited long enough. -/
  | giveUp
  | wait (ms : Nat)
  | interrupt
  deriving Repr

namespace Chain

variable {σ : Type}

/-- The state before the first step. -/
def begin (interrupted : Bool) (world : σ) : Chain σ :=
  ⟨.ready, .watching, 0, interrupted, 0, world⟩

/-- Begin a call; `place` is where the worker is while it goes on. -/
def call {α : Type} (c : Chain σ) (f : Call σ α) (place : Nat → Outcome α → Place σ) : Chain σ :=
  let r := f c.world
  { c with
    place := place (c.clock + r.lasts) r.outcome
    interrupted := c.interrupted || r.interrupts
    world := r.world }

/-- The worker is somewhere else. -/
def goTo (c : Chain σ) (place : Place σ) : Chain σ :=
  { c with place }

/-- What follows a pull. -/
def afterPull (line : Line σ) (c : Chain σ) (o : Outcome Pulled) : Chain σ :=
  match o.contained line.inputName with
  | .error e => c.goTo (.stopped (.inputFailed e.message))
  | .ok pulled =>
    if c.interrupted then c.goTo (.stopped .interrupted)
    else
      match exitRequested line.exitToken pulled, pulled with
      | some reason, _ => c.goTo (.stopped reason)
      | none, .exhausted => c.goTo (.stopped .inputExhausted)
      | none, .value v =>
        { c with place := .processing line.processors v, iterations := c.iterations + 1 }

/-- One step of the worker, unless it is in a call or has stopped. -/
def work? (line : Line σ) (c : Chain σ) : Option (Chain σ) :=
  match c.place with
  | .ready =>
    if c.interrupted then some (c.goTo (.stopped .interrupted))
    else
      match line.input with
      | none =>
        some (c.goTo (.stopped (.inputFailed (inQuotes line.inputName ++ " is not an input"))))
      | some pull => some (c.call pull .pulling)
  | .pulling ends o => if ends ≤ c.clock then some (c.afterPull line o) else none
  | .processing [] v => some (c.goTo (.delivering line.outputs v))
  | .processing ((name, p) :: left) v =>
    some (c.call (p.process v) fun ends o => .inProcessor ends name o left)
  | .inProcessor ends name o left =>
    if ends ≤ c.clock then
      match o.contained name with
      | .ok v => some (c.goTo (.processing left v))
      | .error _ => some (c.goTo .ready)
    else none
  | .delivering [] _ => some (c.goTo .ready)
  | .delivering ((name, out) :: left) v =>
    some (c.call (out.deliver v) fun ends o => .inOutput ends name o left v)
  | .inOutput ends _ _ left v =>
    if ends ≤ c.clock then some (c.goTo (.delivering left v)) else none
  | .stopped _ => none

/-- One step of a run, if it can be taken. -/
def step? (line : Line σ) (c : Chain σ) : ChainStep → Option (Chain σ)
  | .worker => c.work? line
  | .notice =>
    match c.watch with
    | .watching =>
      if c.interrupted then some { c with watch := .settling (c.clock + line.grace) } else none
    | _ => none
  | .join =>
    match c.watch, c.place with
    | .watching, .stopped reason => some { c with watch := .leaving reason true }
    | .settling _, .stopped _ => some { c with watch := .leaving .interrupted true }
    | _, _ => none
  | .giveUp =>
    match c.watch with
    | .settling deadline =>
      if deadline ≤ c.clock then some { c with watch := .leaving .interrupted false } else none
    | _ => none
  | .wait ms => some { c with clock := c.clock + ms }
  | .interrupt => some { c with interrupted := true }

/-- The step taken next: an interruption is noticed at once, the worker goes before
the end of the grace, and time passes only when nothing else can happen. -/
def choose (c : Chain σ) : Option ChainStep :=
  match c.watch with
  | .leaving _ _ => none
  | .watching =>
    if c.interrupted then some .notice
    else
      match c.place with
      | .stopped _ => some .join
      | place =>
        match place.ends? with
        | some ends => if c.clock < ends then some (.wait (ends - c.clock)) else some .worker
        | none => some .worker
  | .settling deadline =>
    match c.place with
    | .stopped _ => some .join
    | place =>
      match place.ends? with
      | some ends =>
        if ends ≤ c.clock then some .worker
        else if deadline ≤ c.clock then some .giveUp
        else some (.wait (min ends deadline - c.clock))
      | none => some .worker

/-- Take steps until the main task leaves, at most `fuel` steps. -/
def run (line : Line σ) (c : Chain σ) : Nat → Chain σ
  | 0 => c
  | fuel + 1 =>
    match c.choose.bind (c.step? line) with
    | some c => c.run line fuel
    | none => c

end Chain

end Pipeworks
