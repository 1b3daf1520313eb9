import Mathlib.Logic.Relation
import Pipeworks.Proofs.Lifecycle.Schedule
import Pipeworks.Run.Engine

/-!
# The ways out of a run

Components act at the same time, and the run may be interrupted at any moment. `WayOut`
tells how a run can end when its tasks, its worker, its main loop and its bus take their
steps in any order: each constructor is one way out. `Engine.run` takes one order, and ends
in one of these ways unless it panics.
-/

namespace Pipeworks

open Config

variable {σ : Type}

/-- A state of a chain that steps lead to, the interruption among them. -/
def Chain.Reaches (line : Line σ) : Chain σ → Chain σ → Prop :=
  Relation.ReflTransGen fun c c' => ∃ step, c.step? line step = some c'

/-- A state of a main loop that steps lead to, those of the bus and the interruption among
them. -/
def Loop.Reaches (feed : Feed σ) : Loop σ → Loop σ → Prop :=
  Relation.ReflTransGen fun l l' => ∃ step, l.step? feed step = some l'

/-- What bringing a context up leaves behind, when its tasks take their steps in some order
until none can take one. -/
def Context.ComesUp (c : Context σ) (workers : Nat) (attached : Bool) (world : σ)
    (up : BroughtUp σ) : Prop :=
  ∃ permits schedule, reserve (max workers 1) = .ok permits ∧
    let b := (Ascent.play c.entries permits attached world schedule).now
    (∀ i, b.step? i = none) ∧
    up = ⟨b.report, b.updates, { c with entries := b.entries }, b.world⟩

/-- The ways out of running a context that was brought up. A chain or loop may be left at any
step. -/
inductive Drive (c : Context σ) (settings : RunSettings) (interrupted : Bool) (s : Scene σ) :
    Ended σ Summary → Prop where
  | noInput {e} (none : c.input = .error e) :
      Drive c settings interrupted s (closing c s (.failed e))
  | chain {input chain} (mode : settings.mode = .sequential) (found : c.input = .ok input)
      (reached : Chain.Reaches (lineOf c input settings.exitToken settings.policy.shutdownGrace)
        (Chain.begin interrupted s.world) chain) :
      Drive c settings interrupted s (afterChain c s chain)
  | unregistered {input e exchange} (mode : settings.mode = .bus) (found : c.input = .ok input)
      (refused : register c (Exchange.fresh settings.policy s.world) = (.failed e, exchange)) :
      Drive c settings interrupted s
        (closing c { s with world := exchange.floor.world } (.failed e))
  | loop {input exchange l} (mode : settings.mode = .bus) (found : c.input = .ok input)
      (registered : register c (Exchange.fresh settings.policy s.world) = (.ok (), exchange))
      (reached : Loop.Reaches (feedOf c input settings.exitToken)
        (loopOn exchange interrupted) l) :
      Drive c settings interrupted s (afterLoop c s l)

namespace Engine

/-- A context that was built and brought up in a run. -/
structure Launched (engine : Engine σ) (g : Graph) (session : String) (attached : Bool)
    (s : Scene σ) (settings : RunSettings) (s' : Scene σ) (up : BroughtUp σ) : Prop where
  settled : engine.settings g = .ok settings
  context : ∃ c, engine.instantiate g settings session s = (.ok c, s') ∧
    c.ComesUp settings.workers attached s'.world up

/-- The ways out of a run. -/
inductive WayOut (engine : Engine σ) (g : Graph) (session : String)
    (attached interrupted : Bool) (s : Scene σ) : RunResult σ → Prop where
  | unsettled {e} (refused : engine.settings g = .error e) :
      WayOut engine g session attached interrupted s ⟨.failed e, [], s⟩
  | unbuilt {settings e s'} (settled : engine.settings g = .ok settings)
      (refused : engine.instantiate g settings session s = (.failed e, s')) :
      WayOut engine g session attached interrupted s ⟨.failed e, [], s'⟩
  | down {settings s' up} (launched : engine.Launched g session attached s settings s' up)
      (failed : up.report.isSuccess = false) {ended : Ended σ Summary}
      (closed : ended = closing up.context { s' with world := up.world }
        (.failed (.run (.componentsFailed up.report.failures)))) :
      WayOut engine g session attached interrupted s ⟨ended.outcome, up.updates, ended.scene⟩
  | driven {settings s' up} (launched : engine.Launched g session attached s settings s' up)
      (succeeded : up.report.isSuccess = true) {ended : Ended σ Summary}
      (drive : Drive up.context settings interrupted { s' with world := up.world } ended) :
      WayOut engine g session attached interrupted s ⟨ended.outcome, up.updates, ended.scene⟩

end Engine

/-! ## The order that is run -/

theorem Chain.reaches_run (line : Line σ) (c : Chain σ) (fuel : Nat) :
    Chain.Reaches line c (c.run line fuel) := by
  induction fuel generalizing c with
  | zero => exact .refl
  | succ fuel ih =>
    rw [run]
    cases next : c.choose.bind (c.step? line) with
    | none => exact .refl
    | some c' =>
      obtain ⟨step, -, taken⟩ := Option.bind_eq_some_iff.mp next
      exact .head ⟨step, taken⟩ (ih c')

/-- The next step of tracked work is a step of the bus. -/
theorem Exchange.step?_of_firstOf? {x x' : Exchange σ} {k : Nat} {tasks : List (Activity σ)}
    (here : ∀ j a, tasks[j]? = some a → x.floor.tasks[k + j]? = some a)
    (next : x.firstOf? k tasks = some x') : ∃ m, x.step? m = some x' := by
  induction tasks generalizing k with
  | nil => simp [firstOf?] at next
  | cons a tasks ih =>
    simp only [firstOf?, Option.orElse_eq_orElse, Option.orElse_eq_or,
      Option.or_eq_some_iff] at next
    rcases next with first | ⟨-, later⟩
    · have task : x.floor.tasks[k]? = some a := here 0 a rfl
      exact ⟨.task k, by simpa [step?, taskStep?, task] using first⟩
    · refine ih (fun j b task => ?_) later
      have there := here (j + 1) b task
      rwa [Nat.add_comm j 1, ← Nat.add_assoc] at there

/-- The next state of a bus comes from a step. -/
theorem Exchange.step?_of_next? {x x' : Exchange σ} {also : List Nat}
    (next : x.next? also = some x') : ∃ m, x.step? m = some x' := by
  have ofMoves {moves : List Move} (found : moves.findSome? x.step? = some x') :
      ∃ m, x.step? m = some x' := by
    obtain ⟨m, -, taken⟩ := List.exists_of_findSome?_eq_some found
    exact ⟨m, taken⟩
  simp only [next?, Option.orElse_eq_orElse, Option.orElse_eq_or, Option.or_eq_some_iff] at next
  rcases next with dispatcher | ⟨-, task | ⟨-, tick | ⟨-, wait⟩⟩⟩
  · exact ofMoves dispatcher
  · exact step?_of_firstOf? (fun j a task => by simpa using task) task
  · exact ofMoves tick
  · obtain ⟨t, -, taken⟩ := Option.bind_eq_some_iff.mp wait
    exact ⟨_, taken⟩

theorem Loop.reaches_run (feed : Feed σ) (l : Loop σ) (fuel : Nat) :
    Loop.Reaches feed l (l.run feed fuel) := by
  induction fuel generalizing l with
  | zero => exact .refl
  | succ fuel ih =>
    rw [run]
    split
    · exact .refl
    · cases next : l.next? feed with
      | none => exact .refl
      | some l' =>
        refine .head ?_ (ih l')
        simp only [next?, Option.orElse_eq_orElse, Option.orElse_eq_or,
          Option.or_eq_some_iff] at next
        rcases next with own | ⟨-, bus⟩
        · obtain ⟨step, -, taken⟩ := List.exists_of_findSome?_eq_some own
          exact ⟨step, taken⟩
        · obtain ⟨x, next, rfl⟩ := Option.map_eq_some_iff.mp bus
          obtain ⟨m, taken⟩ := Exchange.step?_of_next? next
          exact ⟨.exchange m, by simp [step?, taken]⟩

/-- Bringing a context up panics, or leaves behind what some order of steps does. -/
theorem Context.bringUp_cases (c : Context σ) (workers : Nat) (attached : Bool) (world : σ) :
    (∃ text, c.bringUp workers attached world = .panicked text) ∨
      ∃ up, c.bringUp workers attached world = .ok up ∧ c.ComesUp workers attached world up := by
  rw [bringUp]
  by_cases room : max workers 1 ≤ maxRoom
  · have permits : reserve (max workers 1) = .ok (max workers 1) := if_pos room
    obtain ⟨schedule, run, stuck⟩ := Ascent.run_settles c.entries (max workers 1) attached world
    rw [permits, Outcome.map, run]
    exact .inr ⟨_, rfl, _, schedule, permits, stuck, rfl⟩
  · rw [reserve, if_neg room]
    exact .inl ⟨_, rfl⟩

theorem drive_drive (c : Context σ) (settings : RunSettings) (interrupted : Bool) (fuel : Nat)
    (s : Scene σ) :
    (∃ text, (drive c settings interrupted fuel s).outcome = .panicked text) ∨
      Drive c settings interrupted s (drive c settings interrupted fuel s) := by
  rw [drive]
  cases mode : settings.mode with
  | sequential =>
    dsimp only
    rw [runChain]
    cases found : c.input with
    | error e => exact .inr (.noInput found)
    | ok input => exact .inr (.chain mode found (Chain.reaches_run _ _ fuel))
  | bus =>
    dsimp only
    rw [runLoop]
    cases found : c.input with
    | error e => exact .inr (.noInput found)
    | ok input =>
      rcases registered : register c (Exchange.fresh settings.policy s.world) with
        ⟨outcome, exchange⟩
      cases outcome with
      | failed e => exact .inr (.unregistered mode found registered)
      | panicked text => exact .inl ⟨text, rfl⟩
      | ok => exact .inr (.loop mode found registered (Loop.reaches_run _ _ fuel))

/-- A run ends in one of the ways out, unless it panics. -/
theorem Engine.wayOut_run (engine : Engine σ) (g : Graph) (session : String)
    (attached interrupted : Bool) (fuel : Nat) (s : Scene σ) :
    (∃ text, (engine.run g session attached interrupted fuel s).outcome = .panicked text) ∨
      engine.WayOut g session attached interrupted s
        (engine.run g session attached interrupted fuel s) := by
  rw [run]
  cases settled : engine.settings g with
  | error e => exact .inr (.unsettled settled)
  | ok settings =>
    dsimp only
    rcases built : engine.instantiate g settings session s with ⟨outcome, s'⟩
    cases outcome with
    | failed e => exact .inr (.unbuilt settled built)
    | panicked text => exact .inl ⟨text, rfl⟩
    | ok c =>
      dsimp only
      rw [runContext]
      rcases c.bringUp_cases settings.workers attached s'.world with
        ⟨text, panicked⟩ | ⟨up, done, comesUp⟩
      · rw [panicked]
        exact .inl ⟨text, rfl⟩
      · have launched : engine.Launched g session attached s settings s' up :=
          ⟨settled, c, built, comesUp⟩
        rw [done]
        dsimp only
        cases success : up.report.isSuccess with
        | false => exact .inr (.down launched success rfl)
        | true =>
          rcases drive_drive up.context settings interrupted fuel { s' with world := up.world } with
            panicked | driven
          · exact .inl panicked
          · exact .inr (.driven launched success driven)

end Pipeworks
