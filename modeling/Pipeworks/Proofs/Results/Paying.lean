import Pipeworks.Proofs.Bus.Shutdown
import Pipeworks.Proofs.Results.Going
import Pipeworks.Proofs.Run.Stopping

/-!
# What a run over the bus hands over

Every input that the main loop publishes earns its results. As long as the bus runs, what has been
handed over and what is owed make what has been earned; when the bus is closed with no work in
flight, what has been earned has been handed over. A dispatcher that crashes leaves work in flight
behind for good, so a bus on which that happens is not closed in this way at all.
-/

namespace Pipeworks

variable {σ : Type}

/-! ## Steps of a run -/

/-- Whether a bus is not closed between two states while work is in flight. -/
def Exchange.isPatient (s s' : Exchange σ) : Bool :=
  s.closing.isShut || !s'.closing.isShut || s.bus.inFlight == 0

namespace LoopRecord

/-- Whether all steps of a schedule have a property. -/
def throughout (q : Exchange σ → Exchange σ → Bool) (feed : Feed σ) (r : LoopRecord σ) :
    List LoopStep → Bool
  | [] => true
  | s :: schedule => q r.loop.exchange (r.step feed s).loop.exchange &&
      (r.step feed s).throughout q feed schedule

/-- What holds at the beginning and is kept by every step that has two properties holds after
every schedule throughout which steps have both. -/
theorem throughout_induction {q q' : Exchange σ → Exchange σ → Bool} {feed : Feed σ}
    {exchange : Exchange σ} {interrupted : Bool} {P : LoopRecord σ → Prop}
    (start : P ⟨loopOn exchange interrupted, [], [], []⟩)
    (step : ∀ r os es ns loop, P r → Loop.Steps feed r.loop os es ns loop →
      q r.loop.exchange loop.exchange = true → q' r.loop.exchange loop.exchange = true →
      P ⟨loop, r.pulled ++ os, r.published ++ es, r.history ++ ns⟩)
    (schedule : List LoopStep)
    (first : throughout q feed ⟨loopOn exchange interrupted, [], [], []⟩ schedule = true)
    (second : throughout q' feed ⟨loopOn exchange interrupted, [], [], []⟩ schedule = true) :
    P (play feed exchange interrupted schedule) := by
  rw [play]
  generalize (⟨loopOn exchange interrupted, [], [], []⟩ : LoopRecord σ) = r at start first second ⊢
  induction schedule generalizing r with
  | nil => exact start
  | cons s schedule ih =>
    rw [throughout, Bool.and_eq_true] at first second
    obtain ⟨one, first⟩ := first
    obtain ⟨other, second⟩ := second
    refine ih (r.step feed s) ?_ first second
    rw [LoopRecord.step] at one other ⊢
    split
    · exact start
    · rename_i loop taken
      simp only [taken] at one other
      exact step r _ _ _ loop start (Loop.steps_of_step? taken) one other

end LoopRecord

/-! ## Accounts -/

theorem Exchange.unreported_of_open {s : Exchange σ} (opened : s.closing.isShut = false) :
    s.shutdownReport?.isNone := by
  rw [shutdownReport?]
  cases closing : s.closing with
  | closed r =>
    rw [closing] at opened
    exact absurd opened.symm Bool.false_ne_true
  | _ => rfl

/-- Only a step of shutting down closes a bus. -/
theorem Exchange.closing_of_shut {s s' : Exchange σ} {m : Move} (step : s.step? m = some s')
    (opened : s.closing.isShut = false) (shut : s'.closing.isShut = true) :
    s.closingStep? = some s' := by
  cases m with
  | closing => exact step
  | dispatcher i | task i =>
    obtain ⟨x, -, step⟩ := Option.bind_eq_some_iff.mp step
    obtain ⟨⟨y, f'⟩, -, rfl⟩ := Option.map_eq_some_iff.mp step
    first
    | exact absurd (opened.symm.trans shut) Bool.false_ne_true
    | cases y <;> exact absurd (opened.symm.trans shut) Bool.false_ne_true
  | retryTick i | requeue | sweepTick i | expire =>
    obtain ⟨x, -, rfl⟩ := Option.map_eq_some_iff.mp step
    exact absurd (opened.symm.trans shut) Bool.false_ne_true
  | wait ms | interrupt =>
    obtain rfl := Option.some.inj step
    exact absurd (opened.symm.trans shut) Bool.false_ne_true

/-- What is known of every bus: how far shutting down has come, as long as nobody panics; and, as
long as it is not closed, that the counter of work in flight covers what has a holder and whoever
has crashed. -/
structure Audit.Regular (policy : Policy) (s : Audit σ) : Prop where
  sound : s.Sound policy
  ending : s.exchange.isCalm → s.exchange.Ending s.history
  covered : s.exchange.closing.isShut = false →
    s.exchange.isWhole ∧ s.held + s.exchange.crashes ≤ s.bus.inFlight

theorem Audit.kept_regular (policy : Policy) :
    Audit.Kept (σ := σ) fun s => s.Regular policy := by
  intro s ns exchange callers regular steps
  refine ⟨regular.sound.step steps, fun calm => ?_, fun opened => ?_⟩
  · exact steps.ending calm (regular.ending (steps.calm calm))
  · obtain ⟨whole, enough⟩ := regular.covered (steps.still_open opened)
    have whole := steps.still_whole opened whole
    refine ⟨whole, steps.covers regular.sound enough whole ?_⟩
    rw [Exchange.spares, Exchange.unreported_of_open opened, Bool.true_or]

theorem Audit.regular_fresh (policy : Policy) (world : σ) :
    (Audit.fresh policy world).Regular policy where
  sound := sound_fresh policy world
  ending := ending_play policy world []
  covered _ := ⟨rfl, Nat.le_refl 0⟩

/-- When an open bus has no work in flight, nobody holds any and nobody has crashed. -/
theorem Audit.Regular.free {policy : Policy} {s : Audit σ} (regular : s.Regular policy)
    (opened : s.exchange.closing.isShut = false) (nothing : s.bus.inFlight = 0) :
    s.held = 0 ∧ s.exchange.isCalm := by
  obtain ⟨-, enough⟩ := regular.covered opened
  rw [← Exchange.crashes_eq_zero_iff]
  omega

/-! ## Payments -/

/-- A processor gets the value that was published. -/
theorem inputOf_inputEvent (feed : Feed σ) (n : Nat) (v : Json) :
    inputOf (inputEvent feed n v) = v := rfl

/-- What the main loop keeps for the recipients of an input that it publishes. -/
def LoopPlace.Keeps (P : Plant σ) : LoopPlace → Multiset Due → Prop
  | .publishing e, kept => Shares (P.Mail e.event) e.pending kept
  | _, kept => kept = 0

namespace Plant

variable {P : Plant σ}

/-- What some inputs earn. -/
def earned (P : Plant σ) (values : List Json) : Multiset (String × Json) :=
  (values.map P.results).sum

theorem earned_concat (values : List Json) (v : Json) :
    P.earned (values ++ [v]) = P.earned values + P.results v := by
  rw [earned, List.map_append, List.sum_append, List.map_singleton, List.sum_singleton, earned]

theorem recipients_inputEvent (lawful : P.Lawful) (feed : Feed σ) (n : Nat) (v : Json) :
    P.recipients (inputEvent feed n v) = [P.processor] := by
  have all : (inputEvent feed n v).isFor = fun _ => true := rfl
  rw [recipients, all]
  have inputs : Bus.subscribersIn P.topics (inputEvent feed n v).topic = [P.processor] :=
    lawful.inputs
  rw [inputs]
  rfl

/-- An open bus that nobody works on when nothing is in flight has paid. -/
theorem Going.settled {policy : Policy} {s : Audit σ} {total : Multiset (String × Json)}
    (going : P.Going s.exchange 0 total) (regular : s.Regular policy)
    (opened : s.exchange.closing.isShut = false) (nothing : s.bus.inFlight = 0) :
    P.Rested s.exchange total := by
  obtain ⟨free, -⟩ := regular.free opened nothing
  rw [Audit.held] at free
  refine going.rested (List.length_eq_zero_iff.mp ?_) (List.length_eq_zero_iff.mp ?_)
    (List.length_eq_zero_iff.mp ?_)
  · change s.bus.waiting.length = 0
    omega
  · omega
  · omega

end Plant

/-- How far a run has paid what its inputs earn. -/
inductive LoopRecord.Pays (P : Plant σ) (base : Multiset (String × Json)) (r : LoopRecord σ) :
    Prop where
  | going {kept : Multiset Due} (opened : r.loop.exchange.closing.isShut = false)
      (keeps : r.loop.place.Keeps P kept)
      (going : P.Going r.loop.exchange kept
        (base + P.earned (r.published.map fun e => inputOf e.event)))
  | rested (shut : r.loop.exchange.closing.isShut = true)
      (rested : P.Rested r.loop.exchange
        (base + P.earned (r.published.map fun e => inputOf e.event)))

/-- A run whose bus is not closed after a dispatcher has crashed. -/
structure LoopRecord.IsStuck (r : LoopRecord σ) : Prop where
  opened : r.loop.exchange.closing.isShut = false
  crashed : ¬ r.loop.exchange.isCalm

namespace LoopRecord

variable {P : Plant σ} {base : Multiset (String × Json)} {r : LoopRecord σ} {feed : Feed σ}
  {os : List (Outcome Pulled)} {es : List Emission} {ns : List Note} {loop : Loop σ}

/-- Before the main loop is left, the run goes on. -/
theorem Pays.going_of_place {place : LoopPlace} (pays : r.Pays P base) (isOpen : r.loop.IsOpen)
    (here : r.loop.place = place) (more : ∀ exit inTime, place ≠ .stopping exit inTime) :
    r.loop.exchange.closing.isShut = false ∧ ∃ kept, place.Keeps P kept ∧
      P.Going r.loop.exchange kept (base + P.earned (r.published.map fun e => inputOf e.event)) := by
  have running := (isOpen.of_place here more).1
  cases pays with
  | going opened keeps going =>
    rw [here] at keeps
    exact ⟨opened, _, keeps, going⟩
  | rested shut =>
    rw [running] at shut
    exact absurd shut Bool.false_ne_true

/-- A bus on which somebody has crashed is not closed by a patient step: some work stays in flight. -/
theorem IsStuck.step {policy : Policy} (stuck : r.IsStuck) (regular : r.audit.Regular policy)
    (steps : Loop.Steps feed r.loop os es ns loop)
    (patient : r.loop.exchange.isPatient loop.exchange = true) :
    IsStuck ⟨loop, r.pulled ++ os, r.published ++ es, r.history ++ ns⟩ := by
  obtain ⟨opened, crashed⟩ := stuck
  cases steps with
  | noticed | refused | published | answered | served => exact ⟨opened, crashed⟩
  | missing ready none =>
    rw [Loop.pull, none]
    exact ⟨opened, crashed⟩
  | pulled ready some =>
    rw [Loop.pull, some]
    exact ⟨opened, crashed⟩
  | stopped | left => exact ⟨rfl, crashed⟩
  | @moved m exchange step =>
    refine ⟨?_, fun calm => crashed ((Exchange.steps_of_step? step).calm calm)⟩
    by_contra shut
    rw [Bool.not_eq_false] at shut
    have shut : exchange.closing.isShut = true := shut
    rw [Exchange.isPatient, opened, shut, Bool.not_true, Bool.false_or, Bool.false_or,
      beq_iff_eq] at patient
    exact crashed (regular.free opened patient).2

/-- A step of the exchange keeps up the payments, unless somebody crashes in it. -/
theorem Pays.moved {policy : Policy} {m : Move} {exchange : Exchange σ} (lawful : P.Lawful)
    (pays : r.Pays P base) (isOpen : r.loop.IsOpen) (regular : r.audit.Regular policy)
    (step : r.loop.exchange.step? m = some exchange)
    (unexpired : r.loop.exchange.sparesStreams exchange = true)
    (patient : r.loop.exchange.isPatient exchange = true) :
    Pays P base ⟨{ r.loop with exchange }, r.pulled, r.published, r.history ++ ns⟩ ∨
      IsStuck ⟨{ r.loop with exchange }, r.pulled, r.published, r.history ++ ns⟩ := by
  cases pays with
  | @going kept opened keeps going =>
    cases shut : exchange.closing.isShut with
    | false =>
      by_cases calm : exchange.isCalm
      · exact .inl (.going shut keeps (going.step lawful step shut calm unexpired))
      · exact .inr ⟨shut, calm⟩
    | true =>
      -- A bus that still takes events is not closed by any step, so the main loop has been left.
      have nothing : kept = 0 := by
        cases place : r.loop.place with
        | stopping exit inTime =>
          rw [place] at keeps
          exact keeps
        | _ =>
          have still := (isOpen.of_place place (by simp)).step (Exchange.steps_of_step? step)
          rw [still.1] at shut
          exact absurd shut Bool.false_ne_true
      rw [nothing] at going
      rw [Exchange.isPatient, opened, shut, Bool.not_true, Bool.false_or, Bool.false_or,
        beq_iff_eq] at patient
      have rested := going.settled regular opened patient
      exact .inl (.rested shut (rested.closing (Exchange.closing_of_shut step opened shut)))
  | rested shut rested =>
    have calm : r.loop.exchange.isCalm := by
      refine Exchange.isCalm_iff.mpr fun d hd => ?_
      have free := rested.posts d hd
      rw [Dispatcher.hasCrashed]
      cases post : d.post <;> simp_all [Post.isFree]
    exact .inl (.rested ((Exchange.steps_of_step? step).shut shut)
      (rested.step (regular.ending calm) shut step))

/-- A step of a run keeps up the payments, unless somebody crashes in it. -/
theorem Pays.step {policy : Policy} (lawful : P.Lawful)
    (quiet : ∀ call, feed.input = some call →
      ∀ world, P.handed (call world).world = P.handed world)
    (pays : r.Pays P base) (isOpen : r.loop.IsOpen) (regular : r.audit.Regular policy)
    (steps : Loop.Steps feed r.loop os es ns loop)
    (unexpired : r.loop.exchange.sparesStreams loop.exchange = true)
    (patient : r.loop.exchange.isPatient loop.exchange = true) :
    Pays P base ⟨loop, r.pulled ++ os, r.published ++ es, r.history ++ ns⟩ ∨
      IsStuck ⟨loop, r.pulled ++ os, r.published ++ es, r.history ++ ns⟩ := by
  have same : r.published ++ [] = r.published := List.append_nil _
  cases steps with
  | noticed pulling =>
    obtain ⟨opened, kept, keeps, going⟩ := pays.going_of_place isOpen pulling (by simp)
    rw [same]
    exact .inl (.going opened keeps going)
  | missing ready none =>
    obtain ⟨opened, kept, keeps, going⟩ := pays.going_of_place isOpen ready (by simp)
    rw [same, Loop.pull, none]
    exact .inl (.going opened keeps going)
  | @pulled call ready some =>
    obtain ⟨opened, kept, keeps, going⟩ := pays.going_of_place isOpen ready (by simp)
    rw [same, Loop.pull, some]
    refine .inl (.going opened keeps (going.pass rfl rfl fun owed solvent => ?_))
    exact solvent.pass (quiet call some _) rfl fun _ office => office
  | stopped pulling =>
    obtain ⟨opened, kept, keeps, going⟩ := pays.going_of_place isOpen pulling (by simp)
    rw [same]
    exact .inl (.going rfl keeps (going.pass rfl rfl fun owed solvent => solvent))
  | refused pulling =>
    obtain ⟨opened, kept, keeps, going⟩ := pays.going_of_place isOpen pulling (by simp)
    rw [same]
    exact .inl (.going opened keeps going)
  | @published ends v e bus pulling goes ok =>
    obtain ⟨opened, kept, keeps, going⟩ := pays.going_of_place isOpen pulling (by simp)
    obtain rfl : kept = 0 := keeps
    obtain ⟨event, pending, after⟩ := going.accept ok
    have mail : Shares (P.Mail e.event) e.pending (P.promises v) := by
      rw [event, pending, Plant.recipients_inputEvent lawful]
      exact .one .input
    have more := after.promise lawful v
    rw [add_zero] at more
    refine .inl (.going opened mail ?_)
    have earns : P.earned ((r.published ++ [e]).map fun e => inputOf e.event) =
        P.earned (r.published.map fun e => inputOf e.event) + P.results v := by
      rw [List.map_append, List.map_singleton, event, inputOf_inputEvent, Plant.earned_concat]
    rw [earns, ← add_assoc]
    exact more
  | @answered e publishing done =>
    obtain ⟨opened, kept, keeps, going⟩ := pays.going_of_place isOpen publishing (by simp)
    have keeps : Shares (P.Mail e.event) e.pending kept := keeps
    rw [Emission.pending_of_isDone done] at keeps
    rw [same]
    exact .inl (.going opened keeps.of_nil going)
  | @served e ns e' bus publishing serves =>
    obtain ⟨opened, kept, keeps, going⟩ := pays.going_of_place isOpen publishing (by simp)
    obtain ⟨kept', keeps', after⟩ := going.serves keeps serves
    rw [same]
    exact .inl (.going opened keeps' after)
  | left settling =>
    obtain ⟨opened, kept, keeps, going⟩ := pays.going_of_place isOpen settling (by simp)
    rw [same]
    exact .inl (.going rfl keeps (going.pass rfl rfl fun owed solvent => solvent))
  | moved step =>
    rw [same, List.append_nil]
    exact pays.moved lawful isOpen regular step unexpired patient

end LoopRecord

end Pipeworks
