import Mathlib.Data.List.Induction
import Pipeworks.Proofs.Run.Stopping

/-!
# What passes through a run

Beside a chain a log keeps what its worker does: the outcomes that it pulls and the values that it
hands to processors and outputs, in their order. Like the record of a main loop it holds of a run
that may be interrupted at any moment.

A run that has pulled an outcome that ends it does nothing more with any value: in a chain no call
follows, and over the bus nothing is published.
-/

namespace Pipeworks

variable {σ : Type}

/-! ## Outcomes of pulls -/

/-- An outcome that ends a run stands behind the values, and is the last. -/
theorem Received.last_of_stops {exitToken inputName : String} {values : List Json}
    {pulled more before after : List (Outcome Pulled)} {o : Outcome Pulled} {reason : ExitReason}
    (received : Received exitToken values more pulled) (few : more.length ≤ 1)
    (split : pulled = before ++ o :: after)
    (stops : stopReason inputName exitToken o = some reason) :
    before = values.map (fun v => .ok (.value v)) ∧ more = [o] ∧ after = [] := by
  have whole := received.outcomes.symm.trans split
  have past : values.length ≤ before.length := by
    by_contra inside
    have here : values[before.length]? = some values[before.length] :=
      List.getElem?_eq_getElem (by omega)
    have value := congrArg (·[before.length]?) whole
    simp only [List.getElem?_append_right (Nat.le_refl before.length), Nat.sub_self,
      List.getElem?_cons_zero] at value
    rw [List.getElem?_append_left (by simp; omega), List.getElem?_map, here] at value
    obtain rfl := Option.some.inj value
    have goes := received.going _ (List.getElem_mem (by omega : before.length < values.length))
    rw [stopReason, Outcome.contained, Outcome.containedIn] at stops
    exact absurd (goes.symm.trans stops) (by simp)
  have lengths := congrArg List.length whole
  simp only [List.length_append, List.length_map, List.length_cons] at lengths
  obtain rfl : after = [] := List.eq_nil_of_length_eq_zero (by omega)
  have same : before.length = values.length := by omega
  obtain ⟨front, last⟩ := List.append_inj whole (by simpa using same.symm)
  exact ⟨front.symm, last, rfl⟩

/-! ## Chains -/

/-- What the worker of a chain does: it pulls, or hands a value to a component. -/
inductive ChainEvent where
  | pulled (o : Outcome Pulled)
  | processed (name : String) (value : Json)
  | delivered (name : String) (value : Json)

/-- The outcome that is pulled. -/
def ChainEvent.pull? : ChainEvent → Option (Outcome Pulled)
  | .pulled o => some o
  | _ => none

namespace Chain

variable {line : Line σ} {c c' : Chain σ} {os : List (Outcome Pulled)}

/-- What the worker does in a step, read off the states before and after it. -/
def events (c c' : Chain σ) : List ChainEvent :=
  match c.place, c'.place with
  | .ready, .pulling _ o => [.pulled o]
  | .processing ((name, _) :: _) v, .inProcessor .. => [.processed name v]
  | .delivering ((name, _) :: _) v, .inOutput .. => [.delivered name v]
  | _, _ => []

theorem events_of_place (same : c'.place = c.place) : c.events c' = [] := by
  rw [events, same]
  cases c.place with
  | processing left | delivering left => cases left <;> rfl
  | _ => rfl

theorem Steps.pull?_events (steps : Steps line c os c') :
    (c.events c').filterMap ChainEvent.pull? = os := by
  cases steps with
  | noticed | joined | left | waited | interrupted =>
    exact congrArg (List.filterMap ChainEvent.pull?) (events_of_place rfl)
  | halted here | missing here | pulled here | cut here | stopped here | received here
  | processed here | processor here | result here | dropped here | delivered here | output here
  | served here => simp [events, here, goTo, call, ChainEvent.pull?]

theorem Steps.interrupted_mono (steps : Steps line c os c') (before : c.interrupted = true) :
    c'.interrupted = true := by
  by_contra after
  simp [steps.uninterrupted (Bool.eq_false_iff.mpr after)] at before

end Chain

/-- A chain with what its worker has done, the earliest first. -/
structure ChainLog (σ : Type) where
  chain : Chain σ
  events : List ChainEvent

namespace ChainLog

variable {line : Line σ} {interrupted : Bool} {world : σ}

/-- A step that is not possible changes nothing. -/
def step (line : Line σ) (log : ChainLog σ) (s : ChainStep) : ChainLog σ :=
  match log.chain.step? line s with
  | none => log
  | some chain => ⟨chain, log.events ++ log.chain.events chain⟩

/-- A chain after a schedule of steps. -/
def play (line : Line σ) (interrupted : Bool) (world : σ) (schedule : List ChainStep) :
    ChainLog σ :=
  schedule.foldl (step line) ⟨Chain.begin interrupted world, []⟩

/-- The outcomes of the pulls. -/
def pulled (log : ChainLog σ) : List (Outcome Pulled) := log.events.filterMap ChainEvent.pull?

/-- What holds at the beginning and is kept by every step holds always. -/
theorem play_induction {P : ChainLog σ → Prop} (start : P ⟨Chain.begin interrupted world, []⟩)
    (step : ∀ log os chain, P log → Chain.Steps line log.chain os chain →
      P ⟨chain, log.events ++ log.chain.events chain⟩)
    (schedule : List ChainStep) : P (play line interrupted world schedule) := by
  induction schedule using List.reverseRecOn with
  | nil => exact start
  | append_singleton schedule s before =>
    rw [play, List.foldl_append, List.foldl_cons, List.foldl_nil]
    rw [ChainLog.step]
    split
    · exact before
    · rename_i chain taken
      exact step _ _ chain before (Chain.steps_of_step? taken)

/-- The chain with the outcomes of its pulls. -/
def record (log : ChainLog σ) : ChainRecord σ := ⟨log.chain, log.pulled⟩

theorem record_step (log : ChainLog σ) (s : ChainStep) :
    log.record.step line s = (log.step line s).record := by
  rw [step, ChainRecord.step, record]
  dsimp only
  cases taken : log.chain.step? line s with
  | none => rfl
  | some chain =>
    have same := (Chain.steps_of_step? taken).pull?_events
    simp only [record, pulled, List.filterMap_append, same]

/-- A log tells of a chain what its record does. -/
theorem record_play (line : Line σ) (interrupted : Bool) (world : σ) (schedule : List ChainStep) :
    ChainRecord.play line interrupted world schedule =
      (play line interrupted world schedule).record := by
  let fresh : ChainLog σ := ⟨Chain.begin interrupted world, []⟩
  have whole : schedule.foldl (ChainRecord.step line) fresh.record =
      (schedule.foldl (step line) fresh).record := List.foldl_hom record record_step
  exact whole

theorem play_append (line : Line σ) (interrupted : Bool) (world : σ)
    (schedule more : List ChainStep) : play line interrupted world (schedule ++ more) =
      more.foldl (step line) (play line interrupted world schedule) :=
  List.foldl_append

end ChainLog

/-- The outcomes that are left to judge, or have ended the run, by the place of the worker. -/
inductive Place.Judges (line : Line σ) (interrupted : Bool) :
    Place σ → List (Outcome Pulled) → Prop where
  | pulling {ends o} : Judges line interrupted (.pulling ends o) [o]
  | stopped {reason o} (stops : stopReason line.inputName line.exitToken o = some reason) :
      Judges line interrupted (.stopped reason) [o]
  | cut {more} (cut : interrupted = true) (few : more.length ≤ 1) :
      Judges line interrupted (.stopped .interrupted) more
  | working {place} (inWork : ∀ ends o, place ≠ .pulling ends o)
      (going : ∀ reason, place ≠ .stopped reason) : Judges line interrupted place []

/-- A chain has taken the values that it has received, and has done nothing since it pulled what
is left to judge. -/
structure ChainLog.Judged (line : Line σ) (log : ChainLog σ) (values : List Json)
    (more : List (Outcome Pulled)) : Prop where
  received : Received line.exitToken values more log.pulled
  count : values.length = log.chain.iterations
  last : more.map ChainEvent.pulled <:+ log.events
  place : log.chain.place.Judges line log.chain.interrupted more

/-- Why the main task leaves, or waits for the worker. -/
def Chain.Watches (c : Chain σ) : Prop :=
  match c.watch with
  | .watching => True
  | .settling _ => c.interrupted = true
  | .leaving exit inTime => c.place = .stopped exit ∧ inTime = true ∨
      c.interrupted = true ∧ exit = .interrupted

section Chains

variable {line : Line σ} {log : ChainLog σ} {values : List Json} {more : List (Outcome Pulled)}
  {os : List (Outcome Pulled)} {chain : Chain σ}

theorem Place.Judges.length_le {interrupted : Bool} {place : Place σ}
    (judges : place.Judges line interrupted more) : more.length ≤ 1 := by
  cases judges with
  | pulling | stopped => exact Nat.le_refl 1
  | cut cut few => exact few
  | working => exact Nat.zero_le 1

theorem Place.Judges.mono {interrupted interrupted' : Bool} {place : Place σ}
    (judges : place.Judges line interrupted more)
    (mono : interrupted = true → interrupted' = true) :
    place.Judges line interrupted' more := by
  cases judges with
  | pulling => exact .pulling
  | stopped stops => exact .stopped stops
  | cut cut few => exact .cut (mono cut) few
  | working inWork going => exact .working inWork going

theorem Chain.Watches.step (watches : log.chain.Watches)
    (steps : Chain.Steps line log.chain os chain) : chain.Watches := by
  have kept (watch : chain.watch = log.chain.watch)
      (goes : ∀ reason, log.chain.place = .stopped reason → chain.place = .stopped reason) :
      chain.Watches := by
    rw [Chain.Watches] at watches ⊢
    rw [watch]
    cases before : log.chain.watch with
    | watching => trivial
    | settling deadline =>
      rw [before] at watches
      exact steps.interrupted_mono watches
    | leaving exit inTime =>
      rw [before] at watches
      exact watches.imp (And.imp_left (goes exit)) (And.imp_left steps.interrupted_mono)
  cases steps with
  | noticed watching interrupted => exact interrupted
  | joined watching here => exact .inl ⟨here, rfl⟩
  | left settling =>
    rw [Chain.Watches, settling] at watches
    exact .inr ⟨watches, rfl⟩
  | waited | interrupted => exact kept rfl fun _ stopped => stopped
  | halted here | missing here | pulled here | cut here | stopped here | received here
  | processed here | processor here | result here | dropped here | delivered here | output here
  | served here => exact kept rfl fun _ stopped => by simp [here] at stopped

theorem ChainLog.Judged.step {pull : Call σ Pulled} (input : line.input = some pull)
    (judged : log.Judged line values more) (steps : Chain.Steps line log.chain os chain) :
    ∃ values more, Judged line ⟨chain, log.events ++ log.chain.events chain⟩ values more := by
  obtain ⟨received, count, last, place⟩ := judged
  have pulled : pulled ⟨chain, log.events ++ log.chain.events chain⟩ = log.pulled ++ os := by
    rw [ChainLog.pulled, List.filterMap_append, steps.pull?_events]
    rfl
  -- The worker neither pulls nor judges, and what it does is done with nothing left to judge.
  have kept (silent : os = []) (iterations : chain.iterations = log.chain.iterations)
      (judges : chain.place.Judges line chain.interrupted more)
      (ended : log.chain.events chain = [] ∨ more = []) :
      ∃ values more, Judged line ⟨chain, log.events ++ log.chain.events chain⟩ values more := by
    refine ⟨values, more, ?_, count.trans iterations.symm, ?_, judges⟩
    · rw [pulled, silent, List.append_nil]
      exact received
    · rcases ended with none | rfl
      · rw [none, List.append_nil]
        exact last
      · exact List.nil_suffix
  cases steps with
  | missing here none => simp [input] at none
  | noticed | joined | left | waited =>
    exact kept rfl rfl place (.inl (Chain.events_of_place rfl))
  | interrupted => exact kept rfl rfl (place.mono fun _ => rfl) (.inl (Chain.events_of_place rfl))
  | halted here interrupted =>
    rw [here] at place
    cases place
    exact kept rfl rfl (.cut interrupted (Nat.zero_le 1)) (.inr rfl)
  | cut here interrupted =>
    exact kept rfl rfl (.cut interrupted place.length_le) (.inl (by simp [Chain.events, here]))
  | stopped here stops =>
    rw [here] at place
    cases place with
    | pulling => exact kept rfl rfl (.stopped stops) (.inl (by simp [Chain.events, here]))
    | working inWork => exact absurd rfl (inWork _ _)
  | @pulled pull here some =>
    rw [here] at place
    cases place
    refine ⟨values, _, ?_, count, ?_, .pulling⟩
    · rw [pulled]
      exact received.pull _
    · simp [Chain.events, here, Chain.call]
  | @received ends v here goes =>
    rw [here] at place
    cases place with
    | pulling =>
      refine ⟨values ++ [v], [], ?_, by simp [count], List.nil_suffix, .working (by simp) (by simp)⟩
      rw [pulled, List.append_nil]
      exact received.take goes
    | working inWork => exact absurd rfl (inWork _ _)
  | processed here | processor here | result here | dropped here | delivered here | output here
  | served here =>
    rw [here] at place
    cases place
    refine kept rfl rfl (.working ?_ ?_) (.inr rfl) <;> simp [Chain.goTo, Chain.call]

theorem ChainLog.judged_play {pull : Call σ Pulled} (input : line.input = some pull)
    (interrupted : Bool) (world : σ) (schedule : List ChainStep) :
    (∃ values more, (play line interrupted world schedule).Judged line values more) ∧
      (play line interrupted world schedule).chain.Watches := by
  refine play_induction (P := fun log => (∃ values more, log.Judged line values more) ∧
    log.chain.Watches) ?_ ?_ schedule
  · refine ⟨⟨[], [], .nothing _, rfl, List.nil_suffix, .working ?_ ?_⟩, trivial⟩ <;>
      simp [Chain.begin]
  · rintro log os chain ⟨⟨values, more, judged⟩, watches⟩ steps
    exact ⟨judged.step input steps, watches.step steps⟩

/-- Nothing follows a pull that ends a chain. -/
theorem ChainLog.Judged.ended {before after : List ChainEvent} {o : Outcome Pulled}
    {reason : ExitReason} (judged : log.Judged line values more)
    (split : log.events = before ++ .pulled o :: after)
    (stops : stopReason line.inputName line.exitToken o = some reason) :
    before.filterMap ChainEvent.pull? = values.map (fun v => .ok (.value v)) ∧ more = [o] ∧
      after = [] := by
  have pulled : log.pulled =
      before.filterMap ChainEvent.pull? ++ o :: after.filterMap ChainEvent.pull? := by
    rw [ChainLog.pulled, split, List.filterMap_append]
    rfl
  obtain ⟨front, rfl, none⟩ := judged.received.last_of_stops judged.place.length_le pulled stops
  refine ⟨front, rfl, ?_⟩
  -- The last event is a pull, and there is none behind this one.
  obtain ⟨first, whole⟩ := judged.last
  rcases List.eq_nil_or_concat after with rfl | ⟨back, e, rfl⟩
  · rfl
  · rw [split, List.map_singleton, List.concat_eq_append, ← List.cons_append,
      ← List.append_assoc] at whole
    obtain ⟨-, same⟩ := List.append_inj' whole rfl
    obtain rfl := List.singleton_inj.mp same
    simp [ChainEvent.pull?] at none

/-- A chain stops for what it has pulled, or is interrupted. -/
theorem Place.Judges.exit {interrupted : Bool} {place : Place σ} {exit : ExitReason}
    (judges : place.Judges line interrupted more) (stopped : place = .stopped exit) :
    (∃ o, more = [o] ∧ stopReason line.inputName line.exitToken o = some exit) ∨
      interrupted = true ∧ exit = .interrupted := by
  cases judges with
  | pulling => cases stopped
  | stopped stops =>
    obtain rfl := Place.stopped.inj stopped
    exact .inl ⟨_, rfl, stops⟩
  | cut cut =>
    obtain rfl := Place.stopped.inj stopped
    exact .inr ⟨cut, rfl⟩
  | working inWork going => exact absurd stopped (going exit)

theorem ChainLog.Judged.exit {exit : ExitReason} {inTime : Bool}
    (judged : log.Judged line values more) (watches : log.chain.Watches)
    (left : log.chain.watch = .leaving exit inTime) :
    (∃ o, more = [o] ∧ stopReason line.inputName line.exitToken o = some exit) ∨
      log.chain.interrupted = true ∧ exit = .interrupted := by
  rw [Chain.Watches, left] at watches
  rcases watches with ⟨stopped, -⟩ | cut
  · exact judged.place.exit stopped
  · exact .inr cut

theorem Chain.afterPull_of_stops {c : Chain σ} {o : Outcome Pulled} {reason : ExitReason}
    (stops : stopReason line.inputName line.exitToken o = some reason)
    (uninterrupted : c.interrupted = false) : c.afterPull line o = c.goTo (.stopped reason) := by
  rw [stopReason] at stops
  rw [afterPull]
  cases contained : o.contained line.inputName with
  | error e =>
    rw [contained] at stops
    obtain rfl := Option.some.inj stops
    rfl
  | ok pulled =>
    rw [contained] at stops
    dsimp only at stops ⊢
    rw [if_neg (by simp [uninterrupted]), stops]

/-- From here the steps of the worker and of the main task lead out of the chain, and the worker
does nothing more. -/
def ChainLog.Leaves (line : Line σ) (log : ChainLog σ) (reason : ExitReason) : Prop :=
  ∃ more : List ChainStep,
    (more.foldl (step line) log).chain.watch = .leaving reason true ∧
      (more.foldl (step line) log).events = log.events

theorem Chain.Watches.watching {c : Chain σ} (watches : c.Watches)
    (going : ∀ reason, c.place ≠ .stopped reason) (uninterrupted : c.interrupted = false) :
    c.watch = .watching := by
  rw [Chain.Watches] at watches
  cases watch : c.watch with
  | watching => rfl
  | settling | leaving => simp [watch, going, uninterrupted] at watches

/-- A chain that has stopped and has not been interrupted is left for the reason that it has
stopped. -/
theorem ChainLog.leaves_of_stopped {reason : ExitReason} (watches : log.chain.Watches)
    (stopped : log.chain.place = .stopped reason) (uninterrupted : log.chain.interrupted = false) :
    log.Leaves line reason := by
  rw [Chain.Watches, uninterrupted] at watches
  cases watch : log.chain.watch with
  | watching =>
    refine ⟨[.join], ?_⟩
    simp [step, Chain.step?, watch, stopped, Chain.events]
  | settling deadline => simp [watch] at watches
  | leaving exit inTime =>
    simp only [watch, stopped, Place.stopped.injEq, Bool.false_eq_true, false_and, or_false]
      at watches
    obtain ⟨rfl, rfl⟩ := watches
    exact ⟨[], watch, rfl⟩

/-- A chain that has pulled an outcome that ends it and has not been interrupted is left for that
reason. -/
theorem ChainLog.Judged.leaves {o : Outcome Pulled} {reason : ExitReason}
    (judged : log.Judged line values [o]) (watches : log.chain.Watches)
    (stops : stopReason line.inputName line.exitToken o = some reason)
    (uninterrupted : log.chain.interrupted = false) : log.Leaves line reason := by
  have place := judged.place
  generalize here : log.chain.place = p at place
  cases place with
  | cut cut => simp [uninterrupted] at cut
  | stopped stops' =>
    obtain rfl := Option.some.inj (stops.symm.trans stops')
    exact leaves_of_stopped watches here uninterrupted
  | @pulling ends =>
    have watching := watches.watching (by simp [here]) uninterrupted
    let late : Chain σ := { log.chain with clock := log.chain.clock + ends }
    have first : ChainLog.step line log (.wait ends) = ⟨late, log.events⟩ := by
      simp [ChainLog.step, Chain.step?, Chain.events_of_place, late]
    have second : ChainLog.step line ⟨late, log.events⟩ .worker =
        ⟨late.goTo (.stopped reason), log.events⟩ := by
      have judges := Chain.afterPull_of_stops (c := late) stops uninterrupted
      have works : late.step? line .worker = some (late.goTo (.stopped reason)) := by
        simp only [Chain.step?, Chain.work?, late, here, Nat.le_add_left, if_true] at judges ⊢
        rw [judges]
      simp only [ChainLog.step, works]
      simp [Chain.events, late, here, Chain.goTo]
    let stopped : ChainLog σ := ⟨late.goTo (.stopped reason), log.events⟩
    have watches' : stopped.chain.Watches := by
      simp [Chain.Watches, stopped, late, Chain.goTo, watching]
    obtain ⟨more, left, same⟩ : stopped.Leaves line reason :=
      ChainLog.leaves_of_stopped watches' rfl uninterrupted
    refine ⟨.wait ends :: .worker :: more, ?_⟩
    rw [List.foldl_cons, List.foldl_cons, first, second]
    exact ⟨left, same⟩

end Chains

/-! ## Main loops -/

/-- The outcomes that are left to judge, or have ended the run, by the place of the main loop. -/
inductive LoopPlace.Judges (feed : Feed σ) (interrupted : Bool) :
    LoopPlace → List (Outcome Pulled) → Prop where
  | ready : Judges feed interrupted .ready []
  | publishing {e} : Judges feed interrupted (.publishing e) []
  | pulling {ends o} : Judges feed interrupted (.pulling ends o) [o]
  | settling {deadline ends o} (cut : interrupted = true) :
      Judges feed interrupted (.settling .interrupted deadline ends) [o]
  | stopped {reason inTime o}
      (stops : stopReason feed.inputName feed.exitToken o = some reason) :
      Judges feed interrupted (.stopping reason inTime) [o]
  | cut {inTime o} (cut : interrupted = true) :
      Judges feed interrupted (.stopping .interrupted inTime) [o]

/-- A main loop has published the values that it has received, and nothing that is left to
judge. -/
structure LoopRecord.Judged (feed : Feed σ) (r : LoopRecord σ) (values : List Json)
    (more : List (Outcome Pulled)) : Prop where
  took : r.Took feed values more
  place : r.loop.place.Judges feed r.loop.exchange.floor.interrupted more

section Loops

variable {feed : Feed σ} {r : LoopRecord σ} {values : List Json} {more : List (Outcome Pulled)}
  {os : List (Outcome Pulled)} {es : List Emission} {ns : List Note} {loop : Loop σ}

theorem LoopPlace.Judges.length_le {interrupted : Bool} {place : LoopPlace}
    (judges : place.Judges feed interrupted more) : more.length ≤ 1 := by
  cases judges <;> simp

theorem LoopPlace.Judges.mono {interrupted interrupted' : Bool} {place : LoopPlace}
    (judges : place.Judges feed interrupted more)
    (mono : interrupted = true → interrupted' = true) :
    place.Judges feed interrupted' more := by
  cases judges with
  | ready => exact .ready
  | publishing => exact .publishing
  | pulling => exact .pulling
  | settling cut => exact .settling (mono cut)
  | stopped stops => exact .stopped stops
  | cut cut => exact .cut (mono cut)

/-- A main loop is left for what it has pulled, or is interrupted. -/
theorem LoopPlace.Judges.exit {interrupted : Bool} {place : LoopPlace} {exit : ExitReason}
    {inTime : Bool} (judges : place.Judges feed interrupted more)
    (stopped : place = .stopping exit inTime) :
    (∃ o, more = [o] ∧ stopReason feed.inputName feed.exitToken o = some exit) ∨
      interrupted = true ∧ exit = .interrupted := by
  cases judges with
  | ready | publishing | pulling | settling => cases stopped
  | stopped stops =>
    obtain ⟨rfl, -⟩ := LoopPlace.stopping.inj stopped
    exact .inl ⟨_, rfl, stops⟩
  | cut cut =>
    obtain ⟨rfl, -⟩ := LoopPlace.stopping.inj stopped
    exact .inr ⟨cut, rfl⟩

theorem Loop.Steps.interrupted_mono {l l' : Loop σ} (steps : Loop.Steps feed l os es ns l')
    (before : l.exchange.floor.interrupted = true) : l'.exchange.floor.interrupted = true := by
  by_contra after
  simp [steps.uninterrupted (Bool.eq_false_iff.mpr after)] at before

theorem LoopRecord.Judged.step {call : Call σ Pulled} (input : feed.input = some call)
    (isOpen : r.loop.IsOpen) (judged : r.Judged feed values more)
    (steps : Loop.Steps feed r.loop os es ns loop) :
    ∃ values more, LoopRecord.Judged feed
      ⟨loop, r.pulled ++ os, r.published ++ es, r.history ++ ns⟩ values more := by
  obtain ⟨took, place⟩ := judged
  have mono := steps.interrupted_mono
  -- The main loop neither pulls nor publishes, and takes nothing.
  have kept (silent : os = []) (quiet : es = []) (iterations : loop.iterations = r.loop.iterations)
      (judges : loop.place.Judges feed loop.exchange.floor.interrupted more) :
      ∃ values more, LoopRecord.Judged feed
        ⟨loop, r.pulled ++ os, r.published ++ es, r.history ++ ns⟩ values more := by
    subst silent quiet
    rw [List.append_nil, List.append_nil]
    exact ⟨values, more, ⟨took.received, took.count.trans iterations.symm, took.published⟩, judges⟩
  cases steps with
  | missing ready none => simp [input] at none
  | noticed here interrupted =>
    rw [here] at place
    cases place
    exact kept rfl rfl rfl (.settling interrupted)
  | @pulled call here some =>
    rw [here] at place
    cases place
    have pulls : (r.loop.pull feed).place =
        .pulling (r.loop.clock + (call r.loop.exchange.floor.world).lasts)
          (call r.loop.exchange.floor.world).outcome := by
      rw [Loop.pull, some]
    have iterations : (r.loop.pull feed).iterations = r.loop.iterations := by
      rw [Loop.pull, some]
    refine ⟨values, _, ⟨took.received.pull _, took.count.trans iterations.symm, ?_⟩, ?_⟩
    · rw [List.append_nil]
      exact took.published
    · dsimp only
      rw [pulls]
      exact .pulling
  | stopped here stops =>
    rw [here] at place
    cases place
    exact kept rfl rfl rfl (.stopped stops)
  | refused here goes shut =>
    rw [Bus.accept, if_neg (by simp [(isOpen.of_place here (by simp)).2])] at shut
    cases shut
  | @published ends v e bus here goes ok =>
    rw [here] at place
    cases place
    obtain ⟨-, rfl, -⟩ := Bus.accept_ok ok
    refine ⟨values ++ [v], [], ⟨?_, by simp [took.count], ?_⟩, .publishing⟩
    · rw [List.append_nil]
      exact took.received.take goes
    · simp [took.published, inputEvents, took.count]
  | answered here =>
    rw [here] at place
    cases place
    exact kept rfl rfl rfl .ready
  | served here =>
    rw [here] at place
    cases place
    exact kept rfl rfl rfl .publishing
  | left here =>
    rw [here] at place
    cases place with
    | settling cut => exact kept rfl rfl rfl (.cut cut)
  | moved => exact kept rfl rfl rfl (place.mono mono)

theorem LoopRecord.judged_play {call : Call σ Pulled} (input : feed.input = some call)
    {exchange : Exchange σ} (isOpen : exchange.IsOpen) (interrupted : Bool)
    (schedule : List LoopStep) :
    ∃ values more, (play feed exchange interrupted schedule).Judged feed values more := by
  refine (play_induction (P := fun r => r.loop.IsOpen ∧ ∃ values more, r.Judged feed values more)
    ?_ ?_ schedule).2
  · exact ⟨isOpen, [], [], ⟨.nothing _, rfl, rfl⟩, .ready⟩
  · rintro r os es ns loop ⟨isOpen, values, more, judged⟩ steps
    exact ⟨isOpen.step steps, judged.step input isOpen steps⟩

/-- From here the main loop comes to be left, and neither pulls nor publishes anything more. -/
def LoopRecord.Leaves (feed : Feed σ) (r : LoopRecord σ) (reason : ExitReason) : Prop :=
  ∃ (more : List LoopStep) (inTime : Bool),
    (more.foldl (step feed) r).loop.place = .stopping reason inTime ∧
      (more.foldl (step feed) r).pulled = r.pulled ∧
      (more.foldl (step feed) r).published = r.published

/-- Nothing is pulled after a pull that ends the main loop. -/
theorem LoopRecord.Judged.ended {before after : List (Outcome Pulled)} {o : Outcome Pulled}
    {reason : ExitReason} (judged : r.Judged feed values more)
    (split : r.pulled = before ++ o :: after)
    (stops : stopReason feed.inputName feed.exitToken o = some reason) :
    before = values.map (fun v => .ok (.value v)) ∧ more = [o] ∧ after = [] :=
  judged.took.received.last_of_stops judged.place.length_le split stops

/-- A main loop that has pulled an outcome that ends it and has not been interrupted is left for
that reason, as soon as the pull has ended. -/
theorem LoopRecord.Judged.leaves {o : Outcome Pulled} {reason : ExitReason}
    (judged : r.Judged feed values [o])
    (stops : stopReason feed.inputName feed.exitToken o = some reason)
    (uninterrupted : r.loop.exchange.floor.interrupted = false) : r.Leaves feed reason := by
  have place := judged.place
  generalize here : r.loop.place = p at place
  cases place with
  | settling cut | cut cut => simp [uninterrupted] at cut
  | stopped stops' =>
    obtain rfl := Option.some.inj (stops.symm.trans stops')
    exact ⟨[], _, here, rfl, rfl⟩
  | @pulling ends =>
    let floor := r.loop.exchange.floor
    let late : Loop σ := { r.loop with
      exchange := { r.loop.exchange with floor := { floor with clock := floor.clock + ends } } }
    have first : LoopRecord.step feed r (.exchange (.wait ends)) =
        ⟨late, r.pulled, r.published, r.history⟩ := by
      simp [LoopRecord.step, Loop.step?, Exchange.step?, Loop.pulls, Loop.publishes, Loop.notes,
        Exchange.notes, Exchange.clock, late, floor]
    have judges : late.afterPull feed o = late.stop reason true := Loop.afterPull_of_stops stops
    have ended : ends ≤ late.clock := Nat.le_add_left _ _
    have here : late.place = .pulling ends o := here
    have works : late.step? feed .main = some (late.stop reason true) := by
      simp only [Loop.step?, Loop.mainStep?, here, ended, if_true, judges]
    have silent : late.pulls feed .main = [] ∧ late.publishes feed .main = [] := by
      simp [Loop.pulls, Loop.publishes, here, ended, judges, Loop.stop, Loop.callers]
    refine ⟨[.exchange (.wait ends), .main], true, ?_⟩
    rw [List.foldl_cons, List.foldl_cons, List.foldl_nil, first]
    simp [LoopRecord.step, works, silent, Loop.stop]

end Loops

end Pipeworks
