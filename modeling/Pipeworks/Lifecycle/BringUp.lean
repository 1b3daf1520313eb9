import Pipeworks.Lifecycle.Progress
import Pipeworks.Run.Context

/-!
# Bringing components up

Every component has a task that takes it through its init phase, waits until all
components it refers to are started, and takes it through its start phase. In
each phase the parallel half comes first; it needs one of a fixed number of
permits. The sequential half needs the one lane that all components share. A
failure or panic concerns only the component it happens to and those that refer
to it.

`BringUp.step?` is one step of one task; any task that can take a step may be
the next one. `BringUp.run` takes the steps in one particular order.
-/

namespace Pipeworks

variable {σ : Type}

/-- The half of a phase. -/
inductive Half where
  | parallel
  | sequential
  deriving DecidableEq, Repr

/-- Where the task of a component is. -/
inductive Task where
  /-- About to begin a phase. -/
  | entering (p : Phase)
  /-- Waiting for a permit, or for the lane. -/
  | wanting (p : Phase) (h : Half)
  /-- In a call, with what it still reports and how it ends. -/
  | calling (p : Phase) (h : Half) (reports : List Nat) (outcome : Outcome Unit)
  /-- About to end a phase. -/
  | leaving (p : Phase)
  /-- Waiting for components to be started. -/
  | waiting (left : List String)
  /-- About to record a failure. -/
  | failing (p : Phase) (reason : String)
  | over
  deriving Repr

/-- How many steps a task takes at most, reports apart. -/
def Task.rank (dependencies : Nat) : Task → Nat
  | .entering .init => 18 + dependencies
  | .wanting .init .parallel => 17 + dependencies
  | .calling .init .parallel _ _ => 16 + dependencies
  | .wanting .init .sequential => 15 + dependencies
  | .calling .init .sequential _ _ => 14 + dependencies
  | .leaving .init => 13 + dependencies
  | .waiting left => 9 + left.length
  | .entering .start => 8
  | .wanting .start .parallel => 7
  | .calling .start .parallel _ _ => 6
  | .wanting .start .sequential => 5
  | .calling .start .sequential _ _ => 4
  | .leaving .start => 3
  | .failing _ _ => 1
  | .over => 0

/-- The state of bringing components up. -/
structure BringUp (σ : Type) where
  entries : List (Entry σ)
  /-- The task of each entry. -/
  tasks : List Task
  permits : Nat
  laneFree : Bool
  /-- Calls made with a permit. -/
  dispatched : Nat
  /-- Whether anybody listens to progress. -/
  attached : Bool
  /-- The updates published so far, in order. -/
  updates : List Update
  world : σ

/-- The call of a component in a half of a phase. -/
def Component.phaseCall (c : Component σ) : Phase → Half → Option (PhaseCall σ)
  | .init, .parallel => c.parallelInit
  | .init, .sequential => c.init
  | .start, .parallel => c.parallelStart
  | .start, .sequential => c.start

/-- The capability that a half of a phase needs. -/
def Half.capability : Phase → Half → Capability
  | .init, .parallel => .parallelInit
  | .init, .sequential => .init
  | .start, .parallel => .parallelStart
  | .start, .sequential => .start

/-- What is said about a phase call that did not succeed. -/
def phaseFailure? : Outcome Unit → Option String
  | .ok () => none
  | .failed e => some e.message
  | .panicked text => some ("panicked: " ++ panicText text)

namespace BringUp

/-- The state before the first step. -/
def begin (entries : List (Entry σ)) (permits : Nat) (attached : Bool) (world : σ) : BringUp σ where
  entries
  tasks := entries.map fun _ => .entering .init
  permits
  laneFree := true
  dispatched := 0
  attached
  updates := []
  world

/-- The task at a position is now another one. -/
def become (b : BringUp σ) (i : Nat) (t : Task) : BringUp σ :=
  { b with tasks := b.tasks.set i t }

/-- The component at a position is now at another stage. -/
def place (b : BringUp σ) (i : Nat) (e : Entry σ) (stage : Stage) : BringUp σ :=
  { b with entries := b.entries.set i { e with stage } }

/-- Publish progress of a component at a stage. -/
def publish (b : BringUp σ) (e : Entry σ) (p : Phase) (percent : Nat) (stage : Stage) : BringUp σ :=
  { b with updates := b.updates ++ (Reporter.report ⟨e.name, p, b.attached⟩ percent stage) }

/-- Begin a phase. -/
def enter (b : BringUp σ) (i : Nat) (e : Entry σ) (p : Phase) : BringUp σ :=
  match Stage.advance e.name e.stage (.running p) with
  | .error fault => b.become i (.failing p fault.message)
  | .ok stage =>
    let b := b.place i e stage
    if e.has (Half.capability p .parallel) then
      (b.publish e p 0 stage).become i (.wanting p .parallel)
    else if e.has (Half.capability p .sequential) then
      (b.publish e p 0 stage).become i (.wanting p .sequential)
    else b.become i (.leaving p)

/-- Whether what a half needs is free. -/
def mayCall (b : BringUp σ) : Half → Bool
  | .parallel => decide (0 < b.permits)
  | .sequential => b.laneFree

/-- Take what a half needs. -/
def take (b : BringUp σ) : Half → BringUp σ
  | .parallel => { b with permits := b.permits - 1, dispatched := b.dispatched + 1 }
  | .sequential => { b with laneFree := false }

/-- Give back what a half needs. -/
def release (b : BringUp σ) : Half → BringUp σ
  | .parallel => { b with permits := b.permits + 1 }
  | .sequential => { b with laneFree := true }

/-- Begin the call of a half. -/
def call (b : BringUp σ) (i : Nat) (e : Entry σ) (p : Phase) (h : Half) : BringUp σ :=
  let b := b.take h
  match e.component.phaseCall p h with
  | none => b.become i (.calling p h [] (.ok ()))
  | some f =>
    let r := f b.world
    { b with world := r.world }.become i (.calling p h r.reports r.outcome)

/-- End the call of a half. -/
def finish (b : BringUp σ) (i : Nat) (e : Entry σ) (p : Phase) (h : Half) (o : Outcome Unit) :
    BringUp σ :=
  let b := b.release h
  match phaseFailure? o with
  | some reason => b.become i (.failing p reason)
  | none =>
    match h with
    | .sequential => b.become i (.leaving p)
    | .parallel =>
      if e.has (Half.capability p .sequential) then
        (b.publish e p 50 e.stage).become i (.wanting p .sequential)
      else b.become i (.leaving p)

/-- End a phase. -/
def leave (b : BringUp σ) (i : Nat) (e : Entry σ) (p : Phase) : BringUp σ :=
  match Stage.advance e.name e.stage (.done p) with
  | .error fault => b.become i (.failing p fault.message)
  | .ok stage =>
    let b := (b.place i e stage).publish e p 100 stage
    match p with
    | .init => b.become i (.waiting e.dependencies)
    | .start => b.become i .over

/-- Record a failure; the stage stays if it is final already. -/
def fail (b : BringUp σ) (i : Nat) (e : Entry σ) (p : Phase) (reason : String) : BringUp σ :=
  let failed := Stage.failed reason
  let b := match Stage.advance e.name e.stage failed with
    | .ok stage => b.place i e stage
    | .error _ => b
  (b.publish e p 100 failed).become i .over

/-- One step of the task `t` of an entry at a position, if it can take one. -/
def stepOf? (b : BringUp σ) (i : Nat) (e : Entry σ) : Task → Option (BringUp σ)
  | .entering p => some (b.enter i e p)
  | .wanting p h => if b.mayCall h then some (b.call i e p h) else none
  | .calling p h (percent :: reports) o =>
    some ((b.publish e p percent e.stage).become i (.calling p h reports o))
  | .calling p h [] o => some (b.finish i e p h o)
  | .leaving p => some (b.leave i e p)
  | .waiting [] => some (b.become i (.entering .start))
  | .waiting (name :: left) =>
    match Context.find? b.entries name with
    | none => some (b.become i (.waiting left))
    | some d =>
      match d.stage with
      | .started => some (b.become i (.waiting left))
      | .failed _ =>
        some (b.become i (.failing .start ("dependency " ++ inQuotes name ++ " failed")))
      | _ => none
  | .failing p reason => some (b.fail i e p reason)
  | .over => none

/-- One step of the task at a position, if it can take one. -/
def step? (b : BringUp σ) (i : Nat) : Option (BringUp σ) :=
  match b.entries[i]?, b.tasks[i]? with
  | some e, some t => b.stepOf? i e t
  | _, _ => none

/-- Publish everything the call at a position still reports. -/
def publishAll (b : BringUp σ) (i : Nat) : BringUp σ :=
  match b.entries[i]?, b.tasks[i]? with
  | some e, some (.calling p h reports o) =>
    (reports.foldl (fun b percent => b.publish e p percent e.stage) b).become i (.calling p h [] o)
  | _, _ => b

/-- A step of the first of some tasks that can take one, with all reports of its call;
the first of the entries and tasks is at position `i`. -/
def firstOf? (b : BringUp σ) (i : Nat) : List (Entry σ) → List Task → Option (BringUp σ)
  | e :: entries, t :: tasks =>
    (b.stepOf? i e t).map (·.publishAll i) <|> b.firstOf? (i + 1) entries tasks
  | _, _ => none

/-- A step of the first task that can take one, with all reports of its call. -/
def advance? (b : BringUp σ) : Option (BringUp σ) :=
  b.firstOf? 0 b.entries b.tasks

/-- How many steps some tasks together take at most, reports apart. -/
def rankOf : List (Entry σ) → List Task → Nat
  | e :: entries, t :: tasks => Task.rank e.dependencies.length t + rankOf entries tasks
  | _, _ => 0

/-- How many steps all tasks together take at most, reports apart. -/
def rank (b : BringUp σ) : Nat :=
  rankOf b.entries b.tasks

/-- Take steps until no task can take one, at most `fuel` steps. -/
def runFor (b : BringUp σ) : Nat → BringUp σ
  | 0 => b
  | fuel + 1 =>
    match b.advance? with
    | some b => b.runFor fuel
    | none => b

/-- Take steps until no task can take one. -/
def run (b : BringUp σ) : BringUp σ :=
  b.runFor b.rank

end BringUp

/-- How bringing components up ended. -/
structure LifecycleReport where
  /-- The stage of each component, in document order. -/
  stages : List (String × Stage)
  /-- The components that failed, with the reason. -/
  failures : List (String × String)
  /-- Calls made with a permit. -/
  dispatched : Nat
  deriving Repr

namespace LifecycleReport

/-- The components that failed, with the reason. -/
def failuresOf (stages : List (String × Stage)) : List (String × String) :=
  stages.filterMap fun (name, stage) =>
    match stage with
    | .failed reason => some (name, reason)
    | _ => none

/-- Whether every component was started. -/
def isSuccess (r : LifecycleReport) : Bool :=
  r.failures.isEmpty

end LifecycleReport

/-- The report on a state. -/
def BringUp.report (b : BringUp σ) : LifecycleReport :=
  let stages := b.entries.map fun e => (e.name, e.stage)
  ⟨stages, LifecycleReport.failuresOf stages, b.dispatched⟩

/-- What bringing a context up leaves behind. -/
structure BroughtUp (σ : Type) where
  report : LifecycleReport
  updates : List Update
  context : Context σ
  world : σ

/-- What happened, as JSON: the report, the updates of each component, and the
progress that a tracker sees in them. -/
def BroughtUp.toJson (up : BroughtUp σ) : Json :=
  let pair (p : String × String) : Json := .array [.string p.1, .string p.2]
  let named := (up.updates.map (·.component)).eraseDups
  let said (name : String) : Json :=
    .array ((up.updates.filter (·.component == name)).map Update.said)
  let tracker := up.updates.foldl Tracker.take (Tracker.ofNames (up.report.stages.map (·.1)))
  .object [("failures", .array (up.report.failures.map pair)),
    ("states", .array (up.report.stages.map fun (name, stage) => pair (name, stage.text))),
    ("success", .bool up.report.isSuccess),
    ("tracker", tracker.toJson),
    ("updates", .object (named.map fun name => (name, said name))),
    ("workers_dispatched", .integer up.report.dispatched)]

/-- Bring the components of a context up. It panics when there are more workers
than permits can be had. -/
def Context.bringUp (c : Context σ) (workers : Nat) (attached : Bool) (world : σ) :
    Outcome (BroughtUp σ) :=
  (reserve (max workers 1)).map fun permits =>
    let b := (BringUp.begin c.entries permits attached world).run
    ⟨b.report, b.updates, { c with entries := b.entries }, b.world⟩

end Pipeworks
