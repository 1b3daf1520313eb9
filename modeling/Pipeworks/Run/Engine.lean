import Pipeworks.Lifecycle.BringUp
import Pipeworks.Run.Chain
import Pipeworks.Run.Instantiate
import Pipeworks.Run.Loop

/-!
# A run from its document to its end

The engine derives the settings, builds the components, brings them up, and
drives them in the mode of the settings. Every way out closes the components
that were built.

A run takes at most `fuel` steps; one that would take more ends as interrupted.
-/

namespace Pipeworks

open Config

variable {σ : Type}

/-- A context at the end of a run, with the scene it leaves behind. -/
structure Ended (σ α : Type) where
  outcome : Outcome α
  context : Context σ
  scene : Scene σ

/-- Close what is still open and end. -/
def closing {α : Type} (c : Context σ) (s : Scene σ) (outcome : Outcome α) : Ended σ α :=
  let (_, c, s) := c.closeAll s
  ⟨outcome, c, s⟩

/-- What a chain of the components of a context is made of. -/
def lineOf (c : Context σ) (input : Entry σ) (exitToken : String) (grace : Nat) : Line σ where
  inputName := input.name
  input := input.component.input
  processors := (c.having .processor).filterMap fun e =>
    e.component.processor.map fun p => (e.name, p)
  outputs := (c.having .output).filterMap fun e => e.component.output.map fun o => (e.name, o)
  exitToken
  grace

/-- Why a chain was left. -/
def Chain.exit (chain : Chain σ) : ExitReason :=
  match chain.watch with
  | .leaving exit _ => exit
  | _ => .interrupted

/-- Close the components after a chain and sum the run up. -/
def afterChain (c : Context σ) (s : Scene σ) (chain : Chain σ) : Ended σ Summary :=
  let (faults, c, s) := c.closeAll { s with world := chain.world }
  ⟨.ok ⟨Mode.sequential.backend, chain.iterations, chain.exit, faults.length, none⟩, c, s⟩

/-- Run a context as a chain. -/
def runChain (c : Context σ) (exitToken : String) (grace : Nat) (interrupted : Bool) (fuel : Nat)
    (s : Scene σ) : Ended σ Summary :=
  match c.input with
  | .error e => closing c s (.failed e)
  | .ok input =>
    afterChain c s ((Chain.begin interrupted s.world).run (lineOf c input exitToken grace) fuel)

/-- What the main loop of a context goes by. -/
def feedOf (c : Context σ) (input : Entry σ) (exitToken : String) : Feed σ :=
  ⟨input.name, input.component.input, c.session, exitToken⟩

/-- The main loop before its first step, when the bus has all its subscribers. -/
def loopOn (exchange : Exchange σ) (interrupted : Bool) : Loop σ :=
  Loop.begin { exchange with floor := { exchange.floor with interrupted } }.start

/-- Why the main loop was left. -/
def Loop.exit (l : Loop σ) : ExitReason :=
  match l.place with
  | .stopping exit _ => exit
  | _ => .interrupted

/-- Close the components after the main loop and sum the run up. -/
def afterLoop (c : Context σ) (s : Scene σ) (l : Loop σ) : Ended σ Summary :=
  let (faults, c, s) := c.closeAll { s with world := l.exchange.floor.world }
  ⟨.ok ⟨Mode.bus.backend, l.iterations, l.exit, faults.length, some l.exchange.bus.stats⟩, c, s⟩

/-- Run a context over the bus. -/
def runLoop (c : Context σ) (policy : Policy) (exitToken : String) (interrupted : Bool)
    (fuel : Nat) (s : Scene σ) : Ended σ Summary :=
  match c.input with
  | .error e => closing c s (.failed e)
  | .ok input =>
    match register c (Exchange.fresh policy s.world) with
    | (.failed e, exchange) => closing c { s with world := exchange.floor.world } (.failed e)
    | (.panicked text, exchange) =>
      closing c { s with world := exchange.floor.world } (.panicked text)
    | (.ok (), exchange) =>
      afterLoop c s ((loopOn exchange interrupted).run (feedOf c input exitToken) fuel)

/-- Run a context that was brought up. -/
def drive (c : Context σ) (settings : RunSettings) (interrupted : Bool) (fuel : Nat)
    (s : Scene σ) : Ended σ Summary :=
  match settings.mode with
  | .sequential =>
    runChain c settings.exitToken settings.policy.shutdownGrace interrupted fuel s
  | .bus => runLoop c settings.policy settings.exitToken interrupted fuel s

/-- What every run of an engine starts from. -/
structure Engine (σ : Type) where
  registry : Registry σ
  config : RunConfig

/-- What a run leaves behind. -/
structure RunResult (σ : Type) where
  outcome : Outcome Summary
  updates : List Update
  scene : Scene σ

namespace Engine

/-- The settings of a run of `g`. -/
def settings (engine : Engine σ) (g : Graph) : Except Fault RunSettings :=
  RunSettings.ofGraph g engine.config

/-- Build the components of `g`. -/
def instantiate (engine : Engine σ) (g : Graph) (settings : RunSettings) (session : String)
    (s : Scene σ) : Outcome (Context σ) × Scene σ :=
  Pipeworks.instantiate g engine.registry settings session s

/-- Run a context that was built. -/
def runContext (c : Context σ) (settings : RunSettings) (attached interrupted : Bool) (fuel : Nat)
    (s : Scene σ) : RunResult σ :=
  match c.bringUp settings.workers attached s.world with
  | .failed e => ⟨.failed e, [], s⟩
  | .panicked text => ⟨.panicked text, [], s⟩
  | .ok up =>
    let s := { s with world := up.world }
    if up.report.isSuccess then
      let ended := drive up.context settings interrupted fuel s
      ⟨ended.outcome, up.updates, ended.scene⟩
    else
      let ended := closing up.context s
        (.failed (.run (.componentsFailed up.report.failures)) : Outcome Summary)
      ⟨ended.outcome, up.updates, ended.scene⟩

/-- Run a document to its end. -/
def run (engine : Engine σ) (g : Graph) (session : String) (attached interrupted : Bool)
    (fuel : Nat) (s : Scene σ) : RunResult σ :=
  match engine.settings g with
  | .error e => ⟨.failed e, [], s⟩
  | .ok settings =>
    match engine.instantiate g settings session s with
    | (.failed e, s) => ⟨.failed e, [], s⟩
    | (.panicked text, s) => ⟨.panicked text, [], s⟩
    | (.ok c, s) => runContext c settings attached interrupted fuel s

end Engine

end Pipeworks
