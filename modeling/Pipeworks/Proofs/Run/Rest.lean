import Pipeworks.Proofs.Run.Registration

/-!
# What has been waited for

A chain that is left in time has its worker behind it, and a main loop has its last pull behind it.
A bus that was shut down without aborting a dispatcher has all its dispatchers and all tracked work
behind it. None of them begins anything again, whatever happens afterwards.
-/

namespace Pipeworks

variable {σ : Type}

/-! ## Chains -/

namespace Chain

variable {line : Line σ} {c c' : Chain σ}

/-- A chain that is left in time has stopped. -/
def Rests (c : Chain σ) : Prop :=
  ∀ exit, c.watch = .leaving exit true → ∃ reason, c.place = .stopped reason

theorem rests_begin (interrupted : Bool) (world : σ) : (begin interrupted world).Rests :=
  fun _ left => by cases left

theorem watch_afterPull (o : Outcome Pulled) : (c.afterPull line o).watch = c.watch := by
  rw [afterPull]
  repeat' split
  all_goals rfl

theorem watch_work? (h : c.work? line = some c') : c'.watch = c.watch := by
  rw [work?] at h
  repeat' split at h
  all_goals first
    | cases h; done
    | obtain rfl := Option.some.inj h
      first
        | rfl
        | exact watch_afterPull _

/-- A chain that is left stays so, for the same reason. -/
theorem left_step {s : ChainStep} {exit : ExitReason} {inTime : Bool}
    (left : c.watch = .leaving exit inTime) (step : c.step? line s = some c') :
    c'.watch = .leaving exit inTime := by
  cases s with
  | worker => exact (watch_work? step).trans left
  | notice | join | giveUp => simp [step?, left] at step
  | wait ms | interrupt =>
    obtain rfl := Option.some.inj step
    exact left

theorem Rests.step {s : ChainStep} (rests : c.Rests) (step : c.step? line s = some c') :
    c'.Rests := by
  intro exit left
  cases s with
  | worker =>
    obtain ⟨reason, stopped⟩ := rests exit ((watch_work? step).symm.trans left)
    simp [step?, work?, stopped] at step
  | notice =>
    simp only [step?] at step
    split at step
    · split at step
      · obtain rfl := Option.some.inj step
        cases left
      · cases step
    · cases step
  | join =>
    simp only [step?] at step
    split at step
    · rename_i reason watching stopped
      obtain rfl := Option.some.inj step
      exact ⟨reason, stopped⟩
    · rename_i deadline reason settling stopped
      obtain rfl := Option.some.inj step
      exact ⟨reason, stopped⟩
    · cases step
  | giveUp =>
    simp only [step?] at step
    split at step
    · split at step
      · obtain rfl := Option.some.inj step
        cases left
      · cases step
    · cases step
  | wait ms | interrupt =>
    obtain rfl := Option.some.inj step
    exact rests exit left

end Chain

/-! ## Buses -/

namespace Exchange

variable {s s' : Exchange σ} {ns : List Note}

/-- Unless a dispatcher was aborted: the dispatchers that have been waited for have ended, and when
the bus is shut down there is no tracked work. -/
structure Rests (s : Exchange σ) : Prop where
  joined : s.closing.aborted = 0 →
    ∀ d ∈ s.dispatchers.take (s.closing.joined s.dispatchers.length), d.hasEnded = true
  idle : ∀ r, s.closing = .closed r → r.dispatchersAborted = 0 → s.floor.tasks = []

/-- What a step that leaves shutting down, the dispatchers and tracked work alone keeps. -/
theorem Rests.keep (rests : s.Rests) (closing : s'.closing = s.closing)
    (dispatchers : s'.dispatchers = s.dispatchers) (tasks : s'.floor.tasks = s.floor.tasks) :
    s'.Rests := by
  constructor
  · rw [closing, dispatchers]
    exact rests.joined
  · rw [closing, tasks]
    exact rests.idle

/-- A bus that has not got to waiting for dispatchers. -/
theorem rests_of_open (shut : s.closing.isShut = false) : s.Rests := by
  constructor <;> cases closing : s.closing <;>
    simp_all [Closing.isShut, Closing.joined]

/-- A dispatcher that steps has not been waited for. -/
theorem Rests.dispatched (rests : s.Rests) {i : Nat} {d d' : Dispatcher σ} {f' : Floor σ}
    (found : s.dispatchers[i]? = some d) (step : d.Steps s.floor ns d' f') :
    Rests { s with floor := f', dispatchers := s.dispatchers.set i d' } := by
  have later (whole : s.closing.aborted = 0) :=
    le_of_going (rests.joined whole) found step.hands.1
  constructor
  · intro whole
    dsimp only
    rw [List.length_set, List.take_set_of_le (later whole)]
    exact rests.joined whole
  · intro r closed whole
    have closed : s.closing = .closed r := closed
    have late := later (by rw [closed]; exact whole)
    rw [closed, Closing.joined] at late
    have inside := (List.getElem?_eq_some_iff.mp found).1
    omega

/-- Nothing begins again, and what is waited for has ended. -/
theorem Rests.step (rests : s.Rests) (steps : s.Steps ns s') : s'.Rests := by
  have busy {i : Nat} {a : Activity σ} (found : s.floor.tasks[i]? = some a) {r : ShutdownReport}
      (closed : s.closing = .closed r) : r.dispatchersAborted ≠ 0 := by
    intro whole
    rw [rests.idle r closed whole] at found
    cases found
  cases steps with
  | dispatched found step => exact rests.dispatched found step
  | worked found step =>
    exact ⟨rests.joined, fun r closed whole => absurd whole (busy found closed)⟩
  | finished found step =>
    exact ⟨rests.joined, fun r closed whole => absurd whole (busy found closed)⟩
  | retryTick | requeued | sweepTick | expired | waited | interrupted =>
    exact rests.keep rfl rfl rfl
  | closed deadline settling => exact ⟨fun _ d hd => absurd hd List.not_mem_nil, by rintro r ⟨⟩⟩
  | @joined d deadline next aborted joining found ended =>
    refine ⟨fun whole => ?_, by rintro r ⟨⟩⟩
    have before := rests.joined
    rw [joining] at before
    simp only [Closing.joined]
    rw [List.take_add_one, found, Option.toList_some]
    exact List.forall_mem_append.mpr ⟨before whole, List.forall_mem_singleton.mpr ended⟩
  | aborted deadline next aborted joining found =>
    exact ⟨fun whole => absurd whole (Nat.succ_ne_zero _), by rintro r ⟨⟩⟩
  | truncated deadline next aborted joining all =>
    have before := rests.joined
    rw [joining] at before
    refine ⟨fun whole d hd => before whole d ?_, by rintro r ⟨⟩⟩
    rw [Closing.joined, List.take_of_length_le (List.getElem?_eq_none_iff.mp all)]
    exact List.mem_of_mem_take hd
  | drained deadline aborted retries truncated draining =>
    have before := rests.joined
    rw [draining] at before
    exact ⟨before, fun _ _ _ => rfl⟩

/-- A bus does not begin to shut down by itself. -/
theorem Steps.keeps_running (steps : s.Steps ns s') (running : s.closing = .running) :
    s'.closing = .running := by
  cases steps with
  | closed deadline settling => simp [running] at settling
  | joined deadline next aborted joining | aborted deadline next aborted joining
  | truncated deadline next aborted joining => simp [running] at joining
  | drained deadline aborted retries truncated draining => simp [running] at draining
  | _ => exact running

/-- A bus that is shut down stays so. -/
theorem Steps.keeps_closed (steps : s.Steps ns s') {r : ShutdownReport}
    (closed : s.closing = .closed r) : s'.closing = .closed r := by
  cases steps with
  | closed deadline settling => simp [closed] at settling
  | joined deadline next aborted joining | aborted deadline next aborted joining
  | truncated deadline next aborted joining => simp [closed] at joining
  | drained deadline aborted retries truncated draining => simp [closed] at draining
  | _ => exact closed

end Exchange

/-! ## Main loops -/

namespace Loop

variable {feed : Feed σ} {l l' : Loop σ} {os : List (Outcome Pulled)} {es : List Emission}
  {ns : List Note}

/-- A main loop whose bus does not run has been left. -/
structure Rests (l : Loop σ) : Prop where
  left : l.exchange.closing ≠ .running → ∃ exit inTime, l.place = .stopping exit inTime
  exchange : l.exchange.Rests

theorem Rests.running (rests : l.Rests) {place : LoopPlace} (here : l.place = place)
    (going : ∀ exit inTime, place ≠ .stopping exit inTime) : l.exchange.closing = .running := by
  by_contra other
  obtain ⟨exit, inTime, left⟩ := rests.left other
  exact going exit inTime (here.symm.trans left)

theorem rests_loopOn {c : Context σ} {policy : Policy} {world : σ} {exchange : Exchange σ}
    (registered : register c (.fresh policy world) = (.ok (), exchange)) (interrupted : Bool) :
    (loopOn exchange interrupted).Rests := by
  have running : (loopOn exchange interrupted).exchange.closing = .running :=
    (isOpen_register ⟨rfl, rfl⟩ registered).1
  exact ⟨fun other => absurd running other, Exchange.rests_of_open (by rw [running]; rfl)⟩

theorem Rests.step (rests : l.Rests) (steps : Steps feed l os es ns l') : l'.Rests := by
  -- The main loop goes on, and all that may have changed is the bus itself.
  have on {place : LoopPlace} (here : l.place = place)
      (going : ∀ exit inTime, place ≠ .stopping exit inTime)
      (closing : l'.exchange.closing = l.exchange.closing)
      (dispatchers : l'.exchange.dispatchers = l.exchange.dispatchers)
      (tasks : l'.exchange.floor.tasks = l.exchange.floor.tasks) : l'.Rests :=
    ⟨fun other => absurd (closing.trans (rests.running here going)) other,
      rests.exchange.keep closing dispatchers tasks⟩
  cases steps with
  | noticed pulling => exact on pulling (by simp) rfl rfl rfl
  | missing ready none =>
    rw [pull, none] at on ⊢
    exact on ready (by simp) rfl rfl rfl
  | pulled ready some =>
    rw [pull, some] at on ⊢
    exact on ready (by simp) rfl rfl rfl
  | stopped | left => exact ⟨fun _ => ⟨_, _, rfl⟩, Exchange.rests_of_open rfl⟩
  | refused pulling | published pulling => exact on pulling (by simp) rfl rfl rfl
  | answered publishing | served publishing => exact on publishing (by simp) rfl rfl rfl
  | moved step =>
    have steps := Exchange.steps_of_step? step
    exact ⟨fun other => rests.left fun running => other (steps.keeps_running running),
      rests.exchange.step steps⟩

theorem Rests.closed_step (rests : l.Rests) (steps : Steps feed l os es ns l')
    {r : ShutdownReport} (closed : l.exchange.closing = .closed r) :
    l'.exchange.closing = .closed r := by
  have past {place : LoopPlace} (here : l.place = place)
      (going : ∀ exit inTime, place ≠ .stopping exit inTime) :
      l'.exchange.closing = .closed r := by
    have running := rests.running here going
    rw [closed] at running
    cases running
  cases steps with
  | moved step => exact (Exchange.steps_of_step? step).keeps_closed closed
  | missing here | pulled here => exact past here (by simp)
  | noticed here | stopped here | refused here | published here => exact past here (by simp)
  | answered here | served here | left here => exact past here (by simp)

end Loop

end Pipeworks
