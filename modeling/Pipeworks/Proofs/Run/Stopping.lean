import Pipeworks.Proofs.Run.Registration

/-!
# When runs stop

A run over the bus and a run as a chain stop alike. What either has pulled is a list of values
that did not end it, and perhaps one outcome more, which has ended it or is still to be judged;
both count the values. Two runs whose pulls have the same outcomes, one after another, therefore
stop at the same pull, for the same reason.
-/

namespace Pipeworks

variable {σ : Type}

/-- The outcomes of pulls: values that do not end a run, then some outcomes more. -/
structure Received (exitToken : String) (values : List Json) (more pulled : List (Outcome Pulled)) :
    Prop where
  outcomes : pulled = values.map (fun v => .ok (.value v)) ++ more
  going : ∀ v ∈ values, exitRequested exitToken (.value v) = none

/-- Outcomes that follow a script from its beginning. -/
def Follows (script : Nat → Outcome Pulled) (pulled : List (Outcome Pulled)) : Prop :=
  ∀ i o, pulled[i]? = some o → o = script i

namespace Received

variable {exitToken inputName : String} {values others : List Json}
  {pulled pulled' more : List (Outcome Pulled)} {script : Nat → Outcome Pulled}

theorem nothing (exitToken : String) : Received exitToken [] [] [] :=
  ⟨rfl, nofun⟩

/-- The next outcome is still to be judged. -/
theorem pull (received : Received exitToken values [] pulled) (o : Outcome Pulled) :
    Received exitToken values [o] (pulled ++ [o]) := by
  refine ⟨?_, received.going⟩
  rw [received.outcomes, List.append_nil]

/-- The last outcome is a value that does not end the run. -/
theorem take {v : Json} (received : Received exitToken values [.ok (.value v)] pulled)
    (goes : exitRequested exitToken (.value v) = none) :
    Received exitToken (values ++ [v]) [] pulled := by
  constructor
  · rw [received.outcomes]
    simp
  · intro w hw
    rcases List.mem_append.mp hw with old | new
    · exact received.going w old
    · obtain rfl := List.mem_singleton.mp new
      exact goes

theorem value_of_follows (received : Received exitToken values more pulled)
    (follows : Follows script pulled) {i : Nat} {v : Json} (here : values[i]? = some v) :
    script i = .ok (.value v) := by
  have inside : i < values.length := (List.getElem?_eq_some_iff.mp here).1
  refine (follows i _ ?_).symm
  rw [received.outcomes, List.getElem?_append_left (by simpa using inside), List.getElem?_map, here]
  rfl

theorem last_of_follows {o : Outcome Pulled} (received : Received exitToken values [o] pulled)
    (follows : Follows script pulled) : script values.length = o := by
  refine (follows values.length o ?_).symm
  rw [received.outcomes, List.getElem?_append_right (by simp)]
  simp

/-- A value that did not end one run cannot have ended another at the same pull. -/
theorem length_le {o : Outcome Pulled} {reason : ExitReason}
    (first : Received exitToken values [o] pulled) (second : Received exitToken others more pulled')
    (follows : Follows script pulled) (follows' : Follows script pulled')
    (stops : stopReason inputName exitToken o = some reason) : others.length ≤ values.length := by
  by_contra longer
  have inside : values.length < others.length := by omega
  have here : others[values.length]? = some others[values.length] :=
    List.getElem?_eq_getElem inside
  have value := second.value_of_follows follows' here
  rw [first.last_of_follows follows] at value
  subst value
  have goes := second.going _ (List.getElem_mem inside)
  change exitRequested exitToken (.value others[values.length]) = some reason at stops
  rw [goes] at stops
  exact absurd stops (by simp)

/-- Two runs that follow one script and were ended have received the same values, and were ended
by the same outcome. -/
theorem same {o o' : Outcome Pulled} {reason reason' : ExitReason}
    (first : Received exitToken values [o] pulled) (second : Received exitToken others [o'] pulled')
    (follows : Follows script pulled) (follows' : Follows script pulled')
    (stops : stopReason inputName exitToken o = some reason)
    (stops' : stopReason inputName exitToken o' = some reason') : values = others ∧ o = o' := by
  have shorter := first.length_le second follows follows' stops
  have longer := second.length_le first follows' follows stops'
  have length : values.length = others.length := by omega
  constructor
  · apply List.ext_getElem?
    intro i
    cases here : values[i]? with
    | none =>
      have past := List.getElem?_eq_none_iff.mp here
      exact (List.getElem?_eq_none_iff.mpr (by omega)).symm
    | some v =>
      have inside := (List.getElem?_eq_some_iff.mp here).1
      have there : others[i]? = some others[i] := List.getElem?_eq_getElem (by omega)
      have value := first.value_of_follows follows here
      rw [second.value_of_follows follows' there] at value
      rw [there]
      simpa [eq_comm] using value
  · rw [← first.last_of_follows follows, length, second.last_of_follows follows']

end Received

/-! ## Chains -/

/-- What the place of the worker tells about the pulls and the number of inputs taken. -/
def Place.Tells (line : Line σ) (pulled : List (Outcome Pulled)) (n : Nat) : Place σ → Prop
  | .pulling _ o => ∃ values, Received line.exitToken values [o] pulled ∧ values.length = n
  | .stopped reason => ∃ values o, Received line.exitToken values [o] pulled ∧ values.length = n ∧
      stopReason line.inputName line.exitToken o = some reason
  | _ => ∃ values, Received line.exitToken values [] pulled ∧ values.length = n

/-- What holds of a chain that has not been interrupted. -/
structure ChainRecord.Steady (line : Line σ) (r : ChainRecord σ) : Prop where
  tells : r.chain.place.Tells line r.pulled r.chain.iterations
  watch : r.chain.watch = .watching ∨
    ∃ reason, r.chain.watch = .leaving reason true ∧ r.chain.place = .stopped reason

theorem ChainRecord.Steady.step {line : Line σ} {r : ChainRecord σ} {os : List (Outcome Pulled)}
    {chain : Chain σ} {pull : Call σ Pulled} (input : line.input = some pull)
    (steady : r.Steady line) (steps : Chain.Steps line r.chain os chain)
    (uninterrupted : chain.interrupted = false) :
    ChainRecord.Steady line ⟨chain, r.pulled ++ os⟩ := by
  have before := steps.uninterrupted uninterrupted
  have tells := steady.tells
  -- A worker that takes a step has not stopped, so the main task still watches.
  have going {place : Place σ} (here : r.chain.place = place)
      (more : ∀ reason, place ≠ .stopped reason) : r.chain.watch = .watching := by
    rcases steady.watch with watching | ⟨reason, -, stopped⟩
    · exact watching
    · exact absurd (here.symm.trans stopped) (more reason)
  cases steps with
  | halted ready interrupted | cut ready interrupted | noticed ready interrupted =>
    simp [before] at interrupted
  | missing ready none => simp [input] at none
  | pulled ready some =>
    rw [ready] at tells
    obtain ⟨values, received, count⟩ := tells
    exact ⟨⟨values, received.pull _, count⟩, .inl (going ready (by simp))⟩
  | @stopped ends o reason pulling stops =>
    rw [pulling] at tells
    obtain ⟨values, received, count⟩ := tells
    rw [List.append_nil]
    exact ⟨⟨values, o, received, count, stops⟩, .inl (going pulling (by simp))⟩
  | @received ends v pulling goes =>
    rw [pulling] at tells
    obtain ⟨values, received, count⟩ := tells
    rw [List.append_nil]
    refine ⟨⟨values ++ [v], received.take goes, ?_⟩, .inl (going pulling (by simp))⟩
    simp [count]
  | processed here | processor here | result here | dropped here | delivered here | output here
  | served here =>
    rw [here] at tells
    rw [List.append_nil]
    exact ⟨tells, .inl (going here (by simp))⟩
  | @joined reason watching here =>
    rw [List.append_nil]
    exact ⟨tells, .inr ⟨reason, rfl, here⟩⟩
  | left settling =>
    rcases steady.watch with watching | ⟨reason, leaving, -⟩
    · simp [settling] at watching
    · simp [settling] at leaving
  | waited | interrupted =>
    rw [List.append_nil]
    exact ⟨tells, steady.watch⟩

theorem ChainRecord.steady_play {line : Line σ} {pull : Call σ Pulled}
    (input : line.input = some pull) (world : σ) (schedule : List ChainStep) :
    (play line false world schedule).chain.interrupted = false →
      (play line false world schedule).Steady line := by
  refine play_induction (P := fun r => r.chain.interrupted = false → r.Steady line) ?_ ?_ schedule
  · intro _
    exact ⟨⟨[], .nothing _, rfl⟩, .inl rfl⟩
  · intro r os chain before steps uninterrupted
    exact (before (steps.uninterrupted uninterrupted)).step input steps uninterrupted

/-! ## Main loops -/

namespace Exchange

variable {s s' : Exchange σ}

/-- An interruption is never taken back by a program. -/
theorem uninterrupted_of_workStep? {f f' : Floor σ} {w : Work σ} {stride : Stride σ}
    (h : Activity.workStep? f w = some (stride, f')) (after : f'.interrupted = false) :
    f.interrupted = false := by
  cases w with
  | interrupt next =>
    obtain ⟨-, rfl⟩ := Prod.mk.inj (Option.some.inj h)
    simp at after
  | emit e next =>
    simp only [Activity.workStep?] at h
    split at h <;>
    · obtain ⟨-, rfl⟩ := Prod.mk.inj (Option.some.inj h)
      exact after
  | stall => simp [Activity.workStep?] at h
  | openStream next =>
    simp only [Activity.workStep?, Activity.onStreams, Activity.onBus] at h
    split at h <;>
    · obtain ⟨-, rfl⟩ := Prod.mk.inj (Option.some.inj h)
      exact after
  | write id data isFinal next =>
    simp only [Activity.workStep?] at h
    split at h <;>
    · obtain ⟨-, rfl⟩ := Prod.mk.inj (Option.some.inj h)
      exact after
  | drain id output collected =>
    simp only [Activity.workStep?, Activity.onStreams, Activity.onBus] at h
    split at h
    · simp at h
    · obtain ⟨-, rfl⟩ := Prod.mk.inj (Option.some.inj h)
      exact after
    · obtain ⟨-, rfl⟩ := Prod.mk.inj (Option.some.inj h)
      exact after
  | finish | act | pause | dropWriter | claim | dropReader | spawn =>
    simp only [Activity.workStep?, Activity.onStreams, Activity.onBus] at h
    obtain ⟨-, rfl⟩ := Prod.mk.inj (Option.some.inj h)
    exact after

theorem uninterrupted_of_activityStep? {f f' : Floor σ} {a : Activity σ} {stride : Stride σ}
    (h : a.step? f = some (stride, f')) (after : f'.interrupted = false) :
    f.interrupted = false := by
  cases a with
  | running w => exact uninterrupted_of_workStep? h after
  | asleep ends w =>
    simp only [Activity.step?] at h
    split at h
    · obtain ⟨-, rfl⟩ := Prod.mk.inj (Option.some.inj h)
      exact after
    · simp at h
  | emitting e next =>
    simp only [Activity.step?] at h
    split at h
    · obtain ⟨-, rfl⟩ := Prod.mk.inj (Option.some.inj h)
      exact after
    · obtain ⟨r, -, h⟩ := Option.map_eq_some_iff.mp h
      obtain ⟨-, rfl⟩ := Prod.mk.inj h
      exact after
  | writing chunk next =>
    simp only [Activity.step?, Activity.onStreams, Activity.onBus] at h
    split at h
    · simp at h
    · obtain ⟨-, rfl⟩ := Prod.mk.inj (Option.some.inj h)
      exact after
    · obtain ⟨-, rfl⟩ := Prod.mk.inj (Option.some.inj h)
      exact after

theorem uninterrupted_of_dispatcherStep? {f f' : Floor σ} {d d' : Dispatcher σ}
    (h : d.step? f = some (d', f')) (after : f'.interrupted = false) : f.interrupted = false := by
  rw [Dispatcher.step?] at h
  split at h
  · split at h
    · obtain ⟨-, rfl⟩ := Prod.mk.inj (Option.some.inj h)
      exact after
    · split at h
      · obtain ⟨-, rfl⟩ := Prod.mk.inj (Option.some.inj h)
        exact after
      · simp at h
  · split at h
    · simp at h
    all_goals
      rename_i step
      obtain ⟨-, rfl⟩ := Prod.mk.inj (Option.some.inj h)
      exact uninterrupted_of_activityStep? step after
  · simp at h

/-- An interruption is never taken back. -/
theorem uninterrupted_of_step? {m : Move} (h : s.step? m = some s')
    (after : s'.floor.interrupted = false) : s.floor.interrupted = false := by
  cases m with
  | dispatcher i =>
    obtain ⟨d, -, h⟩ := Option.bind_eq_some_iff.mp h
    obtain ⟨⟨d', f'⟩, step, rfl⟩ := Option.map_eq_some_iff.mp h
    exact uninterrupted_of_dispatcherStep? step after
  | task i =>
    obtain ⟨a, -, h⟩ := Option.bind_eq_some_iff.mp h
    obtain ⟨⟨stride, f'⟩, step, rfl⟩ := Option.map_eq_some_iff.mp h
    cases stride <;> exact uninterrupted_of_activityStep? step after
  | retryTick i | requeue | sweepTick i | expire =>
    obtain ⟨x, -, rfl⟩ := Option.map_eq_some_iff.mp h
    exact after
  | closing =>
    rw [step?, closingStep?] at h
    split at h
    · simp at h
    · split at h
      · obtain rfl := Option.some.inj h
        exact after
      · simp at h
    · split at h
      · obtain rfl := Option.some.inj h
        exact after
      · split at h
        · obtain rfl := Option.some.inj h
          exact after
        · split at h
          · obtain rfl := Option.some.inj h
            exact after
          · simp at h
    · obtain ⟨-, h⟩ := Option.ite_none_right_eq_some.mp h
      obtain rfl := Option.some.inj h
      exact after
    · simp at h
  | wait ms =>
    obtain rfl := Option.some.inj h
    exact after
  | interrupt =>
    obtain rfl := Option.some.inj h
    simp at after

end Exchange

theorem Loop.Steps.uninterrupted {feed : Feed σ} {l l' : Loop σ} {os : List (Outcome Pulled)}
    {es : List Emission} {ns : List Note} (steps : Loop.Steps feed l os es ns l')
    (after : l'.exchange.floor.interrupted = false) : l.exchange.floor.interrupted = false := by
  cases steps with
  | missing ready none | pulled ready some =>
    rw [Loop.pull] at after
    split at after
    · exact after
    · simp only [Bool.or_eq_false_iff] at after
      exact after.1
  | moved step => exact Exchange.uninterrupted_of_step? step after
  | _ => exact after

/-- The events that publish some values, numbered from 1. -/
def inputEvents (feed : Feed σ) (values : List Json) : List Event :=
  values.mapIdx fun i v => inputEvent feed (i + 1) v

/-- The main loop has received values, taken that many inputs, and published them. -/
structure LoopRecord.Took (feed : Feed σ) (r : LoopRecord σ) (values : List Json)
    (more : List (Outcome Pulled)) : Prop where
  received : Received feed.exitToken values more r.pulled
  count : values.length = r.loop.iterations
  published : r.published.map (·.event) = inputEvents feed values

/-- What the place of a main loop that has not been interrupted tells about its pulls, and whether
its bus runs. -/
def LoopRecord.Steady (feed : Feed σ) (r : LoopRecord σ) : Prop :=
  match r.loop.place with
  | .ready | .publishing _ => r.loop.exchange.IsOpen ∧ ∃ values, r.Took feed values []
  | .pulling _ o => r.loop.exchange.IsOpen ∧ ∃ values, r.Took feed values [o]
  | .settling .. => False
  | .stopping reason _ => ∃ values o, r.Took feed values [o] ∧
      stopReason feed.inputName feed.exitToken o = some reason

theorem LoopRecord.Steady.step {feed : Feed σ} {r : LoopRecord σ} {os : List (Outcome Pulled)}
    {es : List Emission} {ns : List Note} {loop : Loop σ} {call : Call σ Pulled}
    (input : feed.input = some call) (steady : r.Steady feed)
    (steps : Loop.Steps feed r.loop os es ns loop)
    (uninterrupted : loop.exchange.floor.interrupted = false) :
    LoopRecord.Steady feed ⟨loop, r.pulled ++ os, r.published ++ es, r.history ++ ns⟩ := by
  have before := steps.uninterrupted uninterrupted
  rw [LoopRecord.Steady] at steady
  cases steps with
  | noticed pulling interrupted => simp [before] at interrupted
  | missing ready none => simp [input] at none
  | pulled ready some =>
    rw [ready] at steady
    obtain ⟨isOpen, values, took⟩ := steady
    have place : (r.loop.pull feed).place =
        .pulling (r.loop.clock + (call r.loop.exchange.floor.world).lasts)
          (call r.loop.exchange.floor.world).outcome := by
      rw [Loop.pull, input]
    obtain rfl : call = _ := Option.some.inj (input.symm.trans some)
    rw [LoopRecord.Steady, place]
    refine ⟨?_, values, took.received.pull _, ?_, ?_⟩
    · rw [Loop.pull, input]
      exact isOpen
    · rw [Loop.pull, input]
      exact took.count
    · rw [List.append_nil]
      exact took.published
  | @stopped ends o reason pulling stops =>
    rw [pulling] at steady
    obtain ⟨-, values, took⟩ := steady
    rw [List.append_nil, List.append_nil]
    exact ⟨values, o, ⟨took.received, took.count, took.published⟩, stops⟩
  | refused pulling goes shut =>
    rw [pulling] at steady
    rw [Bus.accept, if_neg (by simp [steady.1.2])] at shut
    simp at shut
  | @published ends v e bus pulling goes ok =>
    rw [pulling] at steady
    obtain ⟨isOpen, values, took⟩ := steady
    obtain ⟨accepts, rfl, rfl⟩ := Bus.accept_ok ok
    rw [List.append_nil]
    refine ⟨⟨isOpen.1, accepts⟩, values ++ [v], took.received.take goes, ?_, ?_⟩
    · simp [took.count]
    · simp [took.published, inputEvents, took.count]
  | @answered e publishing done =>
    rw [publishing] at steady
    obtain ⟨isOpen, values, took⟩ := steady
    rw [List.append_nil, List.append_nil]
    exact ⟨isOpen, values, took.received, took.count, took.published⟩
  | @served e ns e' bus publishing step =>
    rw [publishing] at steady
    obtain ⟨isOpen, values, took⟩ := steady
    rw [List.append_nil, List.append_nil]
    exact ⟨⟨isOpen.1, step.aside.closed.trans isOpen.2⟩, values, took.received, took.count,
      took.published⟩
  | left settling =>
    rw [settling] at steady
    exact steady.elim
  | @moved m exchange step =>
    have opened (isOpen : r.loop.exchange.IsOpen) : exchange.IsOpen :=
      isOpen.step (Exchange.steps_of_step? step)
    rw [List.append_nil, List.append_nil]
    rw [LoopRecord.Steady]
    dsimp only
    cases place : r.loop.place with
    | ready | publishing e | pulling ends o =>
      rw [place] at steady
      obtain ⟨isOpen, values, took⟩ := steady
      exact ⟨opened isOpen, values, took.received, took.count, took.published⟩
    | settling =>
      rw [place] at steady
      exact steady
    | stopping reason inTime =>
      rw [place] at steady
      obtain ⟨values, o, took, stops⟩ := steady
      exact ⟨values, o, ⟨took.received, took.count, took.published⟩, stops⟩

theorem LoopRecord.steady_play {feed : Feed σ} {call : Call σ Pulled}
    (input : feed.input = some call) {exchange : Exchange σ} (isOpen : exchange.IsOpen)
    (schedule : List LoopStep) :
    (play feed exchange false schedule).loop.exchange.floor.interrupted = false →
      (play feed exchange false schedule).Steady feed := by
  refine play_induction (P := fun r => r.loop.exchange.floor.interrupted = false → r.Steady feed)
    ?_ ?_ schedule
  · intro _
    exact ⟨isOpen, [], .nothing _, rfl, rfl⟩
  · intro r os es ns loop before steps uninterrupted
    exact (before (steps.uninterrupted uninterrupted)).step input steps uninterrupted

/-- A run over the bus that has been shut down without an interruption has pulled an outcome that
ended it, after the values that it published. -/
theorem LoopRecord.Steady.of_closed {feed : Feed σ} {r : LoopRecord σ} {report : ShutdownReport}
    (steady : r.Steady feed) (closed : r.loop.exchange.closing = .closed report) :
    ∃ values o reason inTime, r.Took feed values [o] ∧
      stopReason feed.inputName feed.exitToken o = some reason ∧
      r.loop.place = .stopping reason inTime := by
  have shut : ¬ r.loop.exchange.IsOpen := by
    intro isOpen
    simp [isOpen.1] at closed
  rw [LoopRecord.Steady] at steady
  cases place : r.loop.place with
  | ready | publishing e | pulling ends o =>
    rw [place] at steady
    exact absurd steady.1 shut
  | settling exit deadline ends =>
    rw [place] at steady
    exact steady.elim
  | stopping reason inTime =>
    rw [place] at steady
    obtain ⟨values, o, took, stops⟩ := steady
    exact ⟨values, o, reason, inTime, took, stops, rfl⟩

/-- A chain that has been left without an interruption has pulled an outcome that ended it, after
the values that it took. -/
theorem ChainRecord.Steady.of_leaving {line : Line σ} {r : ChainRecord σ} {exit : ExitReason}
    {inTime : Bool} (steady : r.Steady line) (left : r.chain.watch = .leaving exit inTime) :
    ∃ values o, Received line.exitToken values [o] r.pulled ∧
      values.length = r.chain.iterations ∧
      stopReason line.inputName line.exitToken o = some exit := by
  rcases steady.watch with watching | ⟨reason, leaving, stopped⟩
  · simp [watching] at left
  · obtain ⟨rfl, -⟩ := Watch.leaving.inj (leaving.symm.trans left)
    have tells := steady.tells
    rw [stopped] at tells
    exact tells

/-! ## Both -/

/-- Whichever component is the input, a run as a chain and a run over the bus whose pulls follow
one script stop alike, in whatever order their steps are taken: after the same values, at the same
pull, for the same reason, and both count the values. The main loop has published one event for
each of them. -/
theorem backends_stop_alike (c : Context σ) (input : Entry σ) {pull : Call σ Pulled}
    (reads : input.component.input = some pull) (exitToken : String) (grace : Nat)
    (policy : Policy) (s s' : Scene σ) {exchange : Exchange σ}
    (registered : register c (Exchange.fresh policy s'.world) = (.ok (), exchange))
    (script : Nat → Outcome Pulled) (chainSteps : List ChainStep) (loopSteps : List LoopStep)
    {chain : ChainRecord σ} {bus : LoopRecord σ}
    (asChain : chain = .play (lineOf c input exitToken grace) false s.world chainSteps)
    (overBus : bus = .play (feedOf c input exitToken) exchange false loopSteps)
    (follow : Follows script chain.pulled ∧ Follows script bus.pulled)
    (uninterrupted : chain.chain.interrupted = false ∧
      bus.loop.exchange.floor.interrupted = false)
    (returned : (∃ exit inTime, chain.chain.watch = .leaving exit inTime) ∧
      ∃ report, bus.loop.exchange.closing = .closed report) :
    ∃ values o reason,
      (Received exitToken values [o] chain.pulled ∧ Received exitToken values [o] bus.pulled) ∧
      stopReason input.name exitToken o = some reason ∧
      (∃ summary, (afterChain c s chain.chain).outcome = .ok summary ∧
        summary.exit = reason ∧ summary.iterations = values.length) ∧
      (∃ summary, (afterLoop c s' bus.loop).outcome = .ok summary ∧
        summary.exit = reason ∧ summary.iterations = values.length) ∧
      bus.published.map (·.event) = inputEvents (feedOf c input exitToken) values := by
  obtain ⟨⟨exit, inTime, left⟩, report, closed⟩ := returned
  have isOpen : exchange.IsOpen := isOpen_register ⟨rfl, rfl⟩ registered
  have chainSteady : chain.Steady (lineOf c input exitToken grace) := by
    subst asChain
    exact ChainRecord.steady_play reads _ _ uninterrupted.1
  have loopSteady : bus.Steady (feedOf c input exitToken) := by
    subst overBus
    exact LoopRecord.steady_play reads isOpen _ uninterrupted.2
  obtain ⟨values, o, received, count, stops⟩ := chainSteady.of_leaving left
  obtain ⟨others, o', reason, inTime', took, stops', place⟩ := loopSteady.of_closed closed
  obtain ⟨rfl, rfl⟩ := received.same took.received follow.1 follow.2 stops stops'
  obtain rfl : exit = reason := Option.some.inj (stops.symm.trans stops')
  refine ⟨values, o, exit, ⟨received, took.received⟩, stops, ⟨_, rfl, ?_, ?_⟩, ⟨_, rfl, ?_, ?_⟩,
    took.published⟩
  · simp [Chain.exit, left]
  · exact count.symm
  · simp [Loop.exit, place]
  · exact took.count.symm

/-- A component that gives the outcomes that the world lists. -/
def reel : Component (List (Outcome Pulled)) where
  input := some fun
    | [] => { outcome := .ok .exhausted, world := [] }
    | o :: rest => { outcome := o, world := rest }

/-- A component that takes everything. -/
def sink : Component (List (Outcome Pulled)) where
  output := some ⟨fun _ outcomes => { outcome := .ok (), world := outcomes }, none⟩

def reelEntry : Entry (List (Outcome Pulled)) :=
  .fresh "reel" "part" "reel" reel ⟨"reel", [], []⟩ []

def reelContext : Context (List (Outcome Pulled)) where
  session := "session"
  entries := [reelEntry, .fresh "sink" "part" "sink" sink ⟨"sink", [], []⟩ []]
  designated := none
  closed := false

/-- Two values, and then a fault. -/
def reelOutcomes : List (Outcome Pulled) :=
  [.ok (.value (.integer 5)), .ok (.value .null), .failed (.failed "reel" "torn")]

def reelChain : List ChainStep :=
  .replicate 15 .worker ++ [.join]

def reelLoop : List LoopStep :=
  .replicate 9 .main ++ [.exchange .closing, .exchange (.dispatcher 0)]
    ++ .replicate 4 (.exchange .closing)

/-- Both ways of driving the reel stop with its fault, after two values. -/
theorem reel_stops_alike : ∃ values reason,
    values.length = 2 ∧ reason = .inputFailed "component \"reel\" failed: torn" ∧
    (ChainRecord.play (lineOf reelContext reelEntry "quit" 100) false reelOutcomes
      reelChain).chain.exit = reason ∧
    (LoopRecord.play (feedOf reelContext reelEntry "quit")
      (register reelContext (Exchange.fresh .standard reelOutcomes)).2 false reelLoop).published.map
        (·.event) = inputEvents (feedOf reelContext reelEntry "quit") values := by
  have follows : Follows (fun i => reelOutcomes.getD i (.ok .exhausted)) reelOutcomes := by
    intro i o here
    simp [List.getD, here]
  obtain ⟨values, o, reason, received, stops, ⟨summary, done, exit, count⟩, -, published⟩ :=
    backends_stop_alike reelContext reelEntry rfl "quit" 100 .standard ⟨reelOutcomes, []⟩
      ⟨reelOutcomes, []⟩ rfl (fun i => reelOutcomes.getD i (.ok .exhausted)) reelChain reelLoop
      rfl rfl ⟨follows, follows⟩ ⟨rfl, rfl⟩ ⟨⟨_, _, rfl⟩, _, rfl⟩
  obtain rfl := Outcome.ok.inj done
  exact ⟨values, reason, count.symm, exit.symm, exit, published⟩

end Pipeworks
