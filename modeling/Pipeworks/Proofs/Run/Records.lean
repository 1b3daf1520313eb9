import Pipeworks.Proofs.Bus.Shutdown
import Pipeworks.Run.Engine

/-!
# Records of a run

A run as a chain and a run over the bus, under any schedule of their steps. Beside the chain a
record keeps the outcomes of its pulls; beside the main loop it keeps the outcomes of the pulls,
the emissions of the loop itself, and the history of the bus. What is recorded of a step is read
off the state before it and never influences the run.

For each of the two runs one relation lists everything that a step can do.
-/

namespace Pipeworks

variable {σ : Type}

/-- Why a run ends after the outcome of a pull, if it does. -/
def stopReason (inputName exitToken : String) (o : Outcome Pulled) : Option ExitReason :=
  match o.contained inputName with
  | .error e => some (.inputFailed e.message)
  | .ok pulled => exitRequested exitToken pulled

/-- A pull that does not end the run has given a value. -/
theorem value_of_stopReason {inputName exitToken : String} {o : Outcome Pulled}
    (goes : stopReason inputName exitToken o = none) :
    ∃ v, o = .ok (.value v) ∧ exitRequested exitToken (.value v) = none := by
  cases o with
  | ok pulled =>
    cases pulled with
    | value v => exact ⟨v, rfl, goes⟩
    | exhausted => simp [stopReason, Outcome.contained, Outcome.containedIn, exitRequested] at goes
  | failed e | panicked text => simp [stopReason, Outcome.contained, Outcome.containedIn] at goes

/-! ## Chains -/

namespace Chain

/-- The outcome of the pull that a step begins. -/
def pulls (line : Line σ) (c : Chain σ) : ChainStep → List (Outcome Pulled)
  | .worker =>
    match c.place, line.input with
    | .ready, some pull => if c.interrupted then [] else [(pull c.world).outcome]
    | _, _ => []
  | _ => []

/-- A step of a chain, with the outcomes of the pulls that it begins. -/
inductive Steps (line : Line σ) (c : Chain σ) : List (Outcome Pulled) → Chain σ → Prop where
  | halted (ready : c.place = .ready) (interrupted : c.interrupted = true) :
      Steps line c [] (c.goTo (.stopped .interrupted))
  | missing (ready : c.place = .ready) (none : line.input = none) :
      Steps line c []
        (c.goTo (.stopped (.inputFailed (inQuotes line.inputName ++ " is not an input"))))
  | pulled {pull} (ready : c.place = .ready) (some : line.input = some pull) :
      Steps line c [(pull c.world).outcome] (c.call pull .pulling)
  | cut {ends o} (pulling : c.place = .pulling ends o) (interrupted : c.interrupted = true) :
      Steps line c [] (c.goTo (.stopped .interrupted))
  | stopped {ends o reason} (pulling : c.place = .pulling ends o)
      (stops : stopReason line.inputName line.exitToken o = some reason) :
      Steps line c [] (c.goTo (.stopped reason))
  | received {ends v} (pulling : c.place = .pulling ends (.ok (.value v)))
      (goes : exitRequested line.exitToken (.value v) = none) :
      Steps line c []
        { c with place := .processing line.processors v, iterations := c.iterations + 1 }
  | processed {v} (processing : c.place = .processing [] v) :
      Steps line c [] (c.goTo (.delivering line.outputs v))
  | processor {name p left v} (processing : c.place = .processing ((name, p) :: left) v) :
      Steps line c [] (c.call (p.process v) fun ends o => .inProcessor ends name o left)
  | result {ends name o left v} (here : c.place = .inProcessor ends name o left)
      (ok : o.contained name = .ok v) : Steps line c [] (c.goTo (.processing left v))
  | dropped {ends name o left e} (here : c.place = .inProcessor ends name o left)
      (failed : o.contained name = .error e) : Steps line c [] (c.goTo .ready)
  | delivered {v} (delivering : c.place = .delivering [] v) : Steps line c [] (c.goTo .ready)
  | output {name out left v} (delivering : c.place = .delivering ((name, out) :: left) v) :
      Steps line c [] (c.call (out.deliver v) fun ends o => .inOutput ends name o left v)
  | served {ends name o left v} (here : c.place = .inOutput ends name o left v) :
      Steps line c [] (c.goTo (.delivering left v))
  | noticed (watching : c.watch = .watching) (interrupted : c.interrupted = true) :
      Steps line c [] { c with watch := .settling (c.clock + line.grace) }
  | joined {reason} (watching : c.watch = .watching) (here : c.place = .stopped reason) :
      Steps line c [] { c with watch := .leaving reason true }
  | left {deadline inTime} (settling : c.watch = .settling deadline) :
      Steps line c [] { c with watch := .leaving .interrupted inTime }
  | waited (ms : Nat) : Steps line c [] { c with clock := c.clock + ms }
  | interrupted : Steps line c [] { c with interrupted := true }

variable {line : Line σ} {c c' : Chain σ}

theorem steps_of_afterPull {ends : Nat} {o : Outcome Pulled} (pulling : c.place = .pulling ends o) :
    Steps line c [] (c.afterPull line o) := by
  rw [afterPull]
  cases contained : o.contained line.inputName with
  | error e => exact .stopped pulling (by rw [stopReason, contained])
  | ok pulled =>
    by_cases interrupted : c.interrupted = true
    · simp only [interrupted, if_true]
      exact .cut pulling interrupted
    · simp only [if_neg interrupted]
      cases requested : exitRequested line.exitToken pulled with
      | some reason => exact .stopped pulling (by rw [stopReason, contained]; exact requested)
      | none =>
        cases pulled with
        | exhausted => simp [exitRequested] at requested
        | value v =>
          have given : o = .ok (.value v) := by
            cases o <;> simp_all [Outcome.contained, Outcome.containedIn]
          exact .received (given ▸ pulling) requested

theorem steps_of_work? (h : c.work? line = some c') : Steps line c (c.pulls line .worker) c' := by
  rw [work?] at h
  rw [pulls]
  cases place : c.place with
  | ready =>
    simp only [place] at h ⊢
    by_cases interrupted : c.interrupted = true
    · rw [if_pos interrupted] at h
      obtain rfl := Option.some.inj h
      cases line.input <;> simpa [interrupted] using Steps.halted place interrupted
    · rw [if_neg interrupted] at h
      cases input : line.input with
      | none =>
        simp only [input] at h
        obtain rfl := Option.some.inj h
        exact .missing place input
      | some pull =>
        simp only [input, if_neg interrupted] at h ⊢
        obtain rfl := Option.some.inj h
        exact .pulled place input
  | pulling ends o =>
    simp only [place] at h ⊢
    split at h
    · obtain rfl := Option.some.inj h
      exact steps_of_afterPull place
    · simp at h
  | processing left v =>
    cases left with
    | nil =>
      simp only [place] at h ⊢
      obtain rfl := Option.some.inj h
      exact .processed place
    | cons first left =>
      simp only [place] at h ⊢
      obtain rfl := Option.some.inj h
      exact .processor place
  | inProcessor ends name o left =>
    simp only [place] at h ⊢
    split at h
    · split at h
      · rename_i v ok
        obtain rfl := Option.some.inj h
        exact .result place ok
      · rename_i e failed
        obtain rfl := Option.some.inj h
        exact .dropped place failed
    · simp at h
  | delivering left v =>
    cases left with
    | nil =>
      simp only [place] at h ⊢
      obtain rfl := Option.some.inj h
      exact .delivered place
    | cons first left =>
      simp only [place] at h ⊢
      obtain rfl := Option.some.inj h
      exact .output place
  | inOutput ends name o left v =>
    simp only [place] at h ⊢
    split at h
    · obtain rfl := Option.some.inj h
      exact .served place
    · simp at h
  | stopped reason => simp [place] at h

/-- Every step of a chain is one of these, with the pulls that it begins. -/
theorem steps_of_step? {step : ChainStep} (h : c.step? line step = some c') :
    Steps line c (c.pulls line step) c' := by
  cases step with
  | worker => exact steps_of_work? h
  | notice =>
    simp only [step?] at h
    split at h
    · rename_i watching
      split at h
      · rename_i interrupted
        obtain rfl := Option.some.inj h
        exact .noticed watching interrupted
      · simp at h
    · simp at h
  | join =>
    simp only [step?] at h
    split at h
    · rename_i reason watching here
      obtain rfl := Option.some.inj h
      exact .joined watching here
    · rename_i deadline reason settling here
      obtain rfl := Option.some.inj h
      exact .left settling
    · simp at h
  | giveUp =>
    simp only [step?] at h
    split at h
    · rename_i deadline settling
      split at h
      · obtain rfl := Option.some.inj h
        exact .left settling
      · simp at h
    · simp at h
  | wait ms =>
    obtain rfl := Option.some.inj h
    exact .waited ms
  | interrupt =>
    obtain rfl := Option.some.inj h
    exact .interrupted

/-- An interruption is never taken back. -/
theorem Steps.uninterrupted {os : List (Outcome Pulled)} (steps : Steps line c os c')
    (after : c'.interrupted = false) : c.interrupted = false := by
  cases steps with
  | pulled | processor | output =>
    simp only [call, Bool.or_eq_false_iff] at after
    exact after.1
  | interrupted => simp at after
  | _ => exact after

end Chain

/-- A chain with the outcomes of its pulls, the earliest first. -/
structure ChainRecord (σ : Type) where
  chain : Chain σ
  pulled : List (Outcome Pulled)

namespace ChainRecord

/-- A step that is not possible changes nothing. -/
def step (line : Line σ) (r : ChainRecord σ) (s : ChainStep) : ChainRecord σ :=
  match r.chain.step? line s with
  | none => r
  | some chain => ⟨chain, r.pulled ++ r.chain.pulls line s⟩

/-- A chain after a schedule of steps. -/
def play (line : Line σ) (interrupted : Bool) (world : σ) (schedule : List ChainStep) :
    ChainRecord σ :=
  schedule.foldl (step line) ⟨Chain.begin interrupted world, []⟩

/-- What holds at the beginning and is kept by every step holds always. -/
theorem play_induction {line : Line σ} {interrupted : Bool} {world : σ} {P : ChainRecord σ → Prop}
    (start : P ⟨Chain.begin interrupted world, []⟩)
    (step : ∀ r os chain, P r → Chain.Steps line r.chain os chain → P ⟨chain, r.pulled ++ os⟩)
    (schedule : List ChainStep) : P (play line interrupted world schedule) := by
  rw [play]
  generalize (⟨Chain.begin interrupted world, []⟩ : ChainRecord σ) = r at start ⊢
  induction schedule generalizing r with
  | nil => exact start
  | cons s schedule ih =>
    refine ih (r.step line s) ?_
    rw [ChainRecord.step]
    split
    · exact start
    · rename_i chain taken
      exact step r _ chain start (Chain.steps_of_step? taken)

end ChainRecord

/-! ## Main loops -/

namespace Loop

/-- The emission of the main loop that is under way. -/
def callers (l : Loop σ) : List Emission :=
  match l.place with
  | .publishing e => [e]
  | _ => []

/-- The outcome of the pull that a step begins. -/
def pulls (feed : Feed σ) (l : Loop σ) : LoopStep → List (Outcome Pulled)
  | .main =>
    match l.place, feed.input with
    | .ready, some call => [(call l.exchange.floor.world).outcome]
    | _, _ => []
  | _ => []

/-- The emission that a step of the main loop begins. -/
def publishes (feed : Feed σ) (l : Loop σ) : LoopStep → List Emission
  | .main =>
    match l.place with
    | .pulling ends o => if ends ≤ l.clock then (l.afterPull feed o).callers else []
    | _ => []
  | _ => []

/-- What a step notes in the history of the bus. -/
def notes (feed : Feed σ) (l : Loop σ) : LoopStep → List Note
  | .main =>
    match l.place with
    | .publishing e => if e.isDone then [.answered e] else l.exchange.bus.emitNotes e
    | _ => (l.publishes feed .main).map .accepted
  | .exchange m => l.exchange.notes m
  | _ => []

/-- A step of a run over the bus, with the pulls and the emissions that the main loop begins in
it, and with its notes. -/
inductive Steps (feed : Feed σ) (l : Loop σ) :
    List (Outcome Pulled) → List Emission → List Note → Loop σ → Prop where
  | noticed {ends o deadline} (pulling : l.place = .pulling ends o)
      (interrupted : l.exchange.floor.interrupted = true) :
      Steps feed l [] [] [] { l with place := .settling .interrupted deadline ends }
  | missing (ready : l.place = .ready) (none : feed.input = none) :
      Steps feed l [] [] [] (l.pull feed)
  | pulled {call} (ready : l.place = .ready) (some : feed.input = some call) :
      Steps feed l [(call l.exchange.floor.world).outcome] [] [] (l.pull feed)
  | stopped {ends o reason} (pulling : l.place = .pulling ends o)
      (stops : stopReason feed.inputName feed.exitToken o = some reason) :
      Steps feed l [] [] [] (l.stop reason true)
  | refused {ends v fault} (pulling : l.place = .pulling ends (.ok (.value v)))
      (goes : exitRequested feed.exitToken (.value v) = none)
      (shut : l.exchange.bus.accept (inputEvent feed (l.iterations + 1) v) = .error fault) :
      Steps feed l [] [] [] { l with place := .ready, iterations := l.iterations + 1 }
  | published {ends v e bus} (pulling : l.place = .pulling ends (.ok (.value v)))
      (goes : exitRequested feed.exitToken (.value v) = none)
      (ok : l.exchange.bus.accept (inputEvent feed (l.iterations + 1) v) = .ok (e, bus)) :
      Steps feed l [] [e] [.accepted e]
        { place := .publishing e, iterations := l.iterations + 1
          exchange := l.exchange.onBus fun _ => bus }
  | answered {e} (publishing : l.place = .publishing e) (done : e.isDone = true) :
      Steps feed l [] [] [.answered e] { l with place := .ready }
  | served {e ns e' bus} (publishing : l.place = .publishing e)
      (step : l.exchange.bus.Serves e ns e' bus) :
      Steps feed l [] [] ns
        { l with place := .publishing e', exchange := l.exchange.onBus fun _ => bus }
  | left {exit deadline ends inTime} (settling : l.place = .settling exit deadline ends) :
      Steps feed l [] [] [] (l.stop exit inTime)
  | moved {m exchange} (step : l.exchange.step? m = some exchange) :
      Steps feed l [] [] (l.exchange.notes m) { l with exchange }

variable {feed : Feed σ} {l l' : Loop σ}

theorem afterPull_of_stops {o : Outcome Pulled} {reason : ExitReason}
    (stops : stopReason feed.inputName feed.exitToken o = some reason) :
    l.afterPull feed o = l.stop reason true := by
  rw [stopReason] at stops
  rw [afterPull]
  cases contained : o.contained feed.inputName with
  | error e =>
    rw [contained] at stops
    obtain rfl := Option.some.inj stops
    rfl
  | ok pulled =>
    rw [contained] at stops
    dsimp only at stops ⊢
    rw [stops]

theorem afterPull_of_goes {v : Json} (goes : exitRequested feed.exitToken (.value v) = none) :
    l.afterPull feed (.ok (.value v)) =
      match l.exchange.bus.accept (inputEvent feed (l.iterations + 1) v) with
      | .error _ => { l with place := .ready, iterations := l.iterations + 1 }
      | .ok (e, bus) =>
        { place := .publishing e, iterations := l.iterations + 1
          exchange := l.exchange.onBus fun _ => bus } := by
  cases accepted : l.exchange.bus.accept (inputEvent feed (l.iterations + 1) v) <;>
    simp [afterPull, Outcome.contained, Outcome.containedIn, goes, accepted]

theorem steps_of_afterPull {ends : Nat} {o : Outcome Pulled} (pulling : l.place = .pulling ends o) :
    Steps feed l [] (l.afterPull feed o).callers ((l.afterPull feed o).callers.map .accepted)
      (l.afterPull feed o) := by
  cases stops : stopReason feed.inputName feed.exitToken o with
  | some reason =>
    rw [afterPull_of_stops stops]
    exact .stopped pulling stops
  | none =>
    obtain ⟨v, rfl, goes⟩ := value_of_stopReason stops
    rw [afterPull_of_goes goes]
    cases accepted : l.exchange.bus.accept (inputEvent feed (l.iterations + 1) v) with
    | error fault => exact .refused pulling goes accepted
    | ok r => exact .published pulling goes accepted

theorem steps_of_mainStep? (h : l.mainStep? feed = some l') :
    Steps feed l (l.pulls feed .main) (l.publishes feed .main) (l.notes feed .main) l' := by
  rw [mainStep?] at h
  simp only [pulls, notes]
  cases place : l.place with
  | ready =>
    simp only [place, publishes] at h ⊢
    obtain rfl := Option.some.inj h
    cases input : feed.input with
    | none => exact .missing place input
    | some call => exact .pulled place input
  | pulling ends o =>
    simp only [place, publishes] at h ⊢
    split at h
    · rename_i ended
      rw [if_pos ended]
      obtain rfl := Option.some.inj h
      exact steps_of_afterPull place
    · simp at h
  | publishing e =>
    simp only [place, publishes] at h ⊢
    by_cases done : e.isDone = true
    · rw [if_pos done] at h ⊢
      obtain rfl := Option.some.inj h
      exact .answered place done
    · rw [if_neg done] at h ⊢
      obtain ⟨⟨e', bus⟩, step, rfl⟩ := Option.map_eq_some_iff.mp h
      exact .served place (Bus.serves_of_emitStep? step)
  | settling exit deadline ends =>
    simp only [place, publishes] at h ⊢
    split at h
    · obtain rfl := Option.some.inj h
      exact .left place
    · simp at h
  | stopping exit inTime => simp [place] at h

/-- Every step of a run over the bus is one of these, with what is recorded of it. -/
theorem steps_of_step? {step : LoopStep} (h : l.step? feed step = some l') :
    Steps feed l (l.pulls feed step) (l.publishes feed step) (l.notes feed step) l' := by
  cases step with
  | notice =>
    simp only [step?] at h
    split at h
    · rename_i ends o pulling
      split at h
      · rename_i interrupted
        obtain rfl := Option.some.inj h
        exact .noticed pulling interrupted
      · simp at h
    · simp at h
  | main => exact steps_of_mainStep? h
  | giveUp =>
    simp only [step?] at h
    split at h
    · rename_i exit deadline ends settling
      split at h
      · obtain rfl := Option.some.inj h
        exact .left settling
      · simp at h
    · simp at h
  | exchange m =>
    obtain ⟨exchange, step, rfl⟩ := Option.map_eq_some_iff.mp h
    exact .moved step

end Loop

/-- A main loop with the outcomes of its pulls, its own emissions, and the history of the bus, the
earliest first. -/
structure LoopRecord (σ : Type) where
  loop : Loop σ
  pulled : List (Outcome Pulled)
  published : List Emission
  history : List Note

namespace LoopRecord

/-- A step that is not possible changes nothing. -/
def step (feed : Feed σ) (r : LoopRecord σ) (s : LoopStep) : LoopRecord σ :=
  match r.loop.step? feed s with
  | none => r
  | some loop => ⟨loop, r.pulled ++ r.loop.pulls feed s, r.published ++ r.loop.publishes feed s,
      r.history ++ r.loop.notes feed s⟩

/-- A main loop after a schedule of steps. -/
def play (feed : Feed σ) (exchange : Exchange σ) (interrupted : Bool) (schedule : List LoopStep) :
    LoopRecord σ :=
  schedule.foldl (step feed) ⟨loopOn exchange interrupted, [], [], []⟩

theorem play_concat (feed : Feed σ) (exchange : Exchange σ) (interrupted : Bool)
    (schedule : List LoopStep) (s : LoopStep) :
    play feed exchange interrupted (schedule ++ [s]) =
      (play feed exchange interrupted schedule).step feed s :=
  List.foldl_append

/-- The bus of the run with the emission of the main loop as a call from outside. -/
def audit (r : LoopRecord σ) : Audit σ :=
  ⟨r.loop.exchange, r.loop.callers, r.history⟩

/-- What holds at the beginning and is kept by every step holds always. -/
theorem play_induction {feed : Feed σ} {exchange : Exchange σ} {interrupted : Bool}
    {P : LoopRecord σ → Prop} (start : P ⟨loopOn exchange interrupted, [], [], []⟩)
    (step : ∀ r os es ns loop, P r → Loop.Steps feed r.loop os es ns loop →
      P ⟨loop, r.pulled ++ os, r.published ++ es, r.history ++ ns⟩)
    (schedule : List LoopStep) : P (play feed exchange interrupted schedule) := by
  rw [play]
  generalize (⟨loopOn exchange interrupted, [], [], []⟩ : LoopRecord σ) = r at start ⊢
  induction schedule generalizing r with
  | nil => exact start
  | cons s schedule ih =>
    refine ih (r.step feed s) ?_
    rw [LoopRecord.step]
    split
    · exact start
    · rename_i loop taken
      exact step r _ _ _ loop start (Loop.steps_of_step? taken)

end LoopRecord

end Pipeworks
