import Mathlib.Data.List.Induction
import Mathlib.Data.List.Nodup
import Pipeworks.Bus.Adapter
import Pipeworks.Proofs.Bus.Conservation
import Pipeworks.Proofs.Bus.Shutdown
import Pipeworks.Proofs.Bus.Staff

/-!
# Subscribers that panic

A panic ends the dispatcher of a subscriber for good. The delivery in hand and those that wait are
lost without a success and without a dead letter, and the subscriber never begins another one.
That is the only loss while the bus runs. The work of processors contains the panics of the calls
in it, so that a processor is not lost in this way.
-/

namespace Pipeworks

variable {σ : Type}

/-! ## Work without panics -/

/-- Work that ends in no panic, whatever its steps are answered. -/
inductive Work.Contained : Work σ → Prop where
  | finish (o : Outcome Unit) (calm : ∀ text, o ≠ .panicked text) : Contained (.finish o)
  | act (f : σ → σ × Work σ) (next : ∀ world, (f world).2.Contained) : Contained (.act f)
  | pause (ms : Nat) (w : Work σ) (next : w.Contained) : Contained (.pause ms w)
  | stall : Contained .stall
  | interrupt (w : Work σ) (next : w.Contained) : Contained (.interrupt w)
  | emit (e : Event) (w : Except Fault Nat → Work σ) (next : ∀ r, (w r).Contained) :
      Contained (.emit e w)
  | openStream (w : String → Work σ) (next : ∀ id, (w id).Contained) : Contained (.openStream w)
  | write (id : String) (data : Json) (isFinal : Bool) (w : Except Fault Unit → Work σ)
      (next : ∀ r, (w r).Contained) : Contained (.write id data isFinal w)
  | dropWriter (id : String) (w : Work σ) (next : w.Contained) : Contained (.dropWriter id w)
  | claim (id : String) (w : Except Fault Unit → Work σ) (next : ∀ r, (w r).Contained) :
      Contained (.claim id w)
  | dropReader (id : String) (w : Work σ) (next : w.Contained) : Contained (.dropReader id w)
  | spawn (task w : Work σ) (next : w.Contained) : Contained (.spawn task w)

namespace Work

theorem contained_done : (done : Work σ).Contained := .finish _ (by simp)

theorem contained_fail (e : Fault) : (fail e : Work σ).Contained := .finish _ (by simp)

theorem contained_call {α : Type} {c : Call σ α} {next : Outcome α → Work σ}
    (contained : ∀ o, (next o).Contained) : (call c next).Contained := by
  refine .act _ fun world => ?_
  have after : (if (c world).lasts = 0 then next (c world).outcome
      else .pause (c world).lasts (next (c world).outcome)).Contained := by
    split
    · exact contained _
    · exact .pause _ _ (contained _)
  dsimp only
  split
  · exact .interrupt _ after
  · exact after

theorem contained_dropWriters {ids : List String} {w : Work σ} (contained : w.Contained) :
    (dropWriters ids w).Contained := by
  induction ids with
  | nil => exact contained
  | cons id ids ih => exact .dropWriter id _ ih

end Work

theorem contained_writeEach {data : Json} {isFinal : Bool}
    {next : Except Fault Unit → List String → Work σ} (contained : ∀ r kept, (next r kept).Contained)
    (kept : List String) (last : Option Fault) (ids : List String) :
    (writeEach data isFinal kept last next ids).Contained := by
  induction ids generalizing kept last with
  | nil => exact contained _ _
  | cons id ids ih =>
    refine .write _ _ _ _ fun r => ?_
    cases r with
    | ok => exact ih _ _
    | error e => exact .dropWriter _ _ (ih _ _)

theorem contained_fanWork (name : String) (streaming : Streaming) (ids : List String) :
    (fanWork name streaming ids : Work σ).Contained := by
  induction streaming generalizing ids with
  | finish o =>
    refine Work.contained_dropWriters (.finish _ fun text => ?_)
    cases o <;> simp [Outcome.contained, Outcome.containedIn, Outcome.ofExcept]
  | write data isFinal next ih =>
    rw [fanWork]
    split
    · exact ih _ _
    · exact contained_writeEach (fun r kept => ih r kept) _ _ _

theorem contained_streamWork (name : String) (c : Component σ) (input : Json) (ids : List String) :
    (streamWork name c input ids).Contained := by
  rw [streamWork]
  split
  · exact Work.contained_dropWriters (Work.contained_fail _)
  · refine Work.contained_call fun o => ?_
    split
    · exact Work.contained_dropWriters (Work.contained_fail _)
    · exact contained_fanWork _ _ _

theorem contained_announceWork {name : String} {e : Event} {next : List String → Work σ}
    (contained : ∀ ids, (next ids).Contained) (ids outputs : List String) :
    (announceWork name e next ids outputs).Contained := by
  induction outputs generalizing ids with
  | nil => exact contained ids
  | cons output outputs ih =>
    refine .openStream _ fun id => .emit _ _ fun r => ?_
    cases r with
    | error fault => exact Work.contained_dropWriters (Work.contained_fail _)
    | ok n => exact ih _

theorem contained_wholeWork (name : String) (c : Component σ) (e : Event) :
    (wholeWork name c e).Contained := by
  rw [wholeWork]
  split
  · exact Work.contained_fail _
  · refine Work.contained_call fun o => ?_
    split
    · exact Work.contained_fail _
    · refine .emit _ _ fun r => ?_
      cases r with
      | error fault => exact Work.contained_fail _
      | ok n => exact Work.contained_done

/-- The work of a processor contains every panic of the component. -/
theorem contained_processorWork (name : String) (c : Component σ) (outputs : List String)
    (e : Event) : (processorWork name c outputs e).Contained := by
  rw [processorWork]
  split
  · exact contained_wholeWork name c e
  · exact contained_announceWork (fun ids => contained_streamWork name c _ ids) _ _

/-- A program that ends in no panic. -/
def Activity.Contained : Activity σ → Prop
  | .running w | .asleep _ w => w.Contained
  | .emitting _ next => ∀ r, (next r).Contained
  | .writing _ next => ∀ r, (next r).Contained

/-- What a program comes to that ends in no panic. -/
def Stride.Contained : Stride σ → Prop
  | .on a => a.Contained
  | .ended o => ∀ text, o ≠ .panicked text

namespace Activity

variable {f f' : Floor σ} {stride : Stride σ}

theorem contained_onBus {w : Work σ} {bus : Bus} (contained : w.Contained)
    (h : onBus f w bus = some (stride, f')) : stride.Contained := by
  obtain ⟨rfl, -⟩ := Prod.mk.inj (Option.some.inj h)
  exact contained

/-- As long as streams can have room, a step leads from work without panics to such work. -/
theorem contained_workStep? {w : Work σ} (contained : w.Contained)
    (room : f.bus.policy.streamCapacity ≤ maxRoom) (h : workStep? f w = some (stride, f')) :
    stride.Contained := by
  cases contained with
  | stall => simp [workStep?] at h
  | emit e w next =>
    simp only [workStep?] at h
    split at h
    · obtain ⟨rfl, -⟩ := Prod.mk.inj (Option.some.inj h)
      exact next _
    · obtain ⟨rfl, -⟩ := Prod.mk.inj (Option.some.inj h)
      exact next
  | openStream w next =>
    simp only [workStep?, Streams.start, reserve, if_pos room, Outcome.map] at h
    exact contained_onBus (next _) h
  | write id data isFinal w next =>
    simp only [workStep?] at h
    split at h
    · obtain ⟨rfl, -⟩ := Prod.mk.inj (Option.some.inj h)
      exact next _
    · obtain ⟨rfl, -⟩ := Prod.mk.inj (Option.some.inj h)
      exact next
  | claim id w next => exact contained_onBus (next _) h
  | dropWriter id w next | dropReader id w next => exact contained_onBus next h
  | finish o calm =>
    obtain ⟨rfl, -⟩ := Prod.mk.inj (Option.some.inj h)
    exact calm
  | act g next =>
    obtain ⟨rfl, -⟩ := Prod.mk.inj (Option.some.inj h)
    exact next _
  | pause ms w next | interrupt w next | spawn task w next =>
    obtain ⟨rfl, -⟩ := Prod.mk.inj (Option.some.inj h)
    exact next

theorem contained_step? {a : Activity σ} (contained : a.Contained)
    (room : f.bus.policy.streamCapacity ≤ maxRoom) (h : a.step? f = some (stride, f')) :
    stride.Contained := by
  cases a with
  | running w => exact contained_workStep? contained room h
  | asleep ends w =>
    simp only [step?] at h
    split at h
    · obtain ⟨rfl, -⟩ := Prod.mk.inj (Option.some.inj h)
      exact contained
    · simp at h
  | emitting e next =>
    simp only [step?] at h
    split at h
    · obtain ⟨rfl, -⟩ := Prod.mk.inj (Option.some.inj h)
      exact contained _
    · obtain ⟨r, -, h⟩ := Option.map_eq_some_iff.mp h
      obtain ⟨rfl, -⟩ := Prod.mk.inj h
      exact contained
  | writing chunk next =>
    simp only [step?] at h
    split at h
    · simp at h
    · exact contained_onBus (contained _) h
    · exact contained_onBus (contained _) h

end Activity

/-- A dispatcher that has not crashed, and does work without panics if it works. -/
def Post.Contained : Post σ → Prop
  | .handling _ a => a.Contained
  | .crashed => False
  | _ => True

theorem Dispatcher.contained_step? {f f' : Floor σ} {d d' : Dispatcher σ}
    (contained : d.post.Contained) (works : ∀ e, (d.deliver e).Contained)
    (room : f.bus.policy.streamCapacity ≤ maxRoom) (h : d.step? f = some (d', f')) :
    d'.post.Contained := by
  rw [step?] at h
  cases post : d.post with
  | idle =>
    simp only [post] at h
    split at h
    · obtain ⟨rfl, -⟩ := Prod.mk.inj (Option.some.inj h)
      exact works _
    · split at h
      · obtain ⟨rfl, -⟩ := Prod.mk.inj (Option.some.inj h)
        trivial
      · simp at h
  | handling x a =>
    rw [post] at contained
    simp only [post] at h
    split at h
    · simp at h
    · rename_i step
      obtain ⟨rfl, -⟩ := Prod.mk.inj (Option.some.inj h)
      exact Activity.contained_step? contained room step
    · obtain ⟨rfl, -⟩ := Prod.mk.inj (Option.some.inj h)
      trivial
    · obtain ⟨rfl, -⟩ := Prod.mk.inj (Option.some.inj h)
      trivial
    · rename_i step
      exact absurd rfl (Activity.contained_step? contained room step _)
  | _ => simp [post] at h

/-- What a step of an exchange does to the dispatchers. -/
inductive Exchange.Turns (s : Exchange σ) : List (Dispatcher σ) → Prop where
  | still : Turns s s.dispatchers
  | stepped {i d d' f'} (found : s.dispatchers[i]? = some d) (step : d.step? s.floor = some (d', f')) :
      Turns s (s.dispatchers.set i d')
  | aborted {i d} (found : s.dispatchers[i]? = some d) (going : d.hasEnded = false) :
      Turns s (s.dispatchers.set i { d with post := .aborted })

theorem Exchange.turns_of_step? {s s' : Exchange σ} {m : Move} (h : s.step? m = some s') :
    s.Turns s'.dispatchers := by
  cases m with
  | dispatcher i =>
    obtain ⟨d, found, h⟩ := Option.bind_eq_some_iff.mp h
    obtain ⟨⟨d', f'⟩, step, rfl⟩ := Option.map_eq_some_iff.mp h
    exact .stepped found step
  | task i =>
    obtain ⟨a, -, h⟩ := Option.bind_eq_some_iff.mp h
    obtain ⟨⟨stride, f'⟩, -, rfl⟩ := Option.map_eq_some_iff.mp h
    cases stride <;> exact .still
  | retryTick | requeue | sweepTick | expire =>
    obtain ⟨x, -, rfl⟩ := Option.map_eq_some_iff.mp h
    exact .still
  | wait | interrupt =>
    obtain rfl := Option.some.inj h
    exact .still
  | closing =>
    rw [step?, closingStep?] at h
    split at h
    · simp at h
    · obtain ⟨-, h⟩ := Option.ite_none_right_eq_some.mp h
      obtain rfl := Option.some.inj h
      exact .still
    · split at h
      · obtain rfl := Option.some.inj h
        exact .still
      · rename_i found
        split at h
        · obtain rfl := Option.some.inj h
          exact .still
        · rename_i going
          obtain ⟨-, h⟩ := Option.ite_none_right_eq_some.mp h
          obtain rfl := Option.some.inj h
          exact .aborted found (Bool.eq_false_iff.mpr going)
    · obtain ⟨-, h⟩ := Option.ite_none_right_eq_some.mp h
      obtain rfl := Option.some.inj h
      exact .still
    · simp at h

/-- Who does work without panics has not crashed. -/
def Exchange.Contained (s : Exchange σ) : Prop :=
  ∀ d ∈ s.dispatchers, (∀ e, (d.deliver e).Contained) → d.post.Contained

namespace Exchange

variable {s s' : Exchange σ}

theorem contained_set {i : Nat} {d d' : Dispatcher σ} (contained : s.Contained)
    (found : s.dispatchers[i]? = some d) (dispatchers : s'.dispatchers = s.dispatchers.set i d')
    (kept : (∀ e, (d'.deliver e).Contained) → d'.post.Contained) : s'.Contained := by
  obtain ⟨before, after⟩ := set_perm found
  intro x hx
  rw [dispatchers] at hx
  rcases List.mem_cons.mp ((after d').mem_iff.mp hx) with rfl | hx
  · exact kept
  · exact contained x (before.mem_iff.mpr (List.mem_cons_of_mem _ hx))

theorem Turns.contained {ds : List (Dispatcher σ)} (turns : s.Turns ds) (contained : s.Contained)
    (room : s.bus.policy.streamCapacity ≤ maxRoom) (dispatchers : s'.dispatchers = ds) :
    s'.Contained := by
  cases turns with
  | still =>
    rw [Contained, dispatchers]
    exact contained
  | stepped found step =>
    refine contained_set contained found dispatchers fun works => ?_
    have deliver := (Dispatcher.steps_of_step? step).deliver
    rw [deliver] at works
    exact Dispatcher.contained_step? (contained _ (List.mem_of_getElem? found) works) works room step
  | aborted found going => exact contained_set contained found dispatchers fun _ => trivial

end Exchange

/-! ## Losses -/

theorem Dispatcher.Steps.loses {f f' : Floor σ} {d d' : Dispatcher σ} {ns : List Note}
    (steps : d.Steps f ns d' f') {k : Parcel} (lost : k ∈ gone ns) :
    k.recipient = d'.name ∧ d'.hasCrashed = true := by
  cases steps with
  | crashed post step =>
    refine ⟨?_, rfl⟩
    obtain ⟨n, hn, same⟩ := List.mem_filterMap.mp lost
    rcases List.mem_cons.mp hn with rfl | hn
    · obtain rfl := Option.some.inj same
      rfl
    · obtain ⟨x, -, rfl⟩ := List.mem_map.mp hn
      obtain rfl := Option.some.inj same
      rfl
  | failed post =>
    rw [Bus.failureNote] at lost
    split at lost <;> cases lost
  | worked post step =>
    rw [step.gone] at lost
    cases lost
  | took | retired | succeeded => cases lost

/-! ## Attempts -/

theorem Activity.Steps.tried {f f' : Floor σ} {a : Activity σ} {ns : List Note}
    {stride : Stride σ} (steps : Activity.Steps f a ns stride f') : Pipeworks.tried ns = [] := by
  cases steps with
  | served step => cases step <;> rfl
  | quiet | accepted | answered => rfl

/-- A dispatcher begins deliveries to its own subscriber only. -/
theorem Dispatcher.Steps.tried {f f' : Floor σ} {d d' : Dispatcher σ} {ns : List Note}
    (steps : d.Steps f ns d' f') : ∀ k ∈ Pipeworks.tried ns, k.recipient = d.name := by
  intro k hk
  cases steps with
  | took idle taken =>
    obtain rfl := List.mem_singleton.mp hk
    rfl
  | worked post step =>
    rw [step.tried] at hk
    cases hk
  | failed post =>
    rw [Bus.failureNote] at hk
    split at hk <;> cases hk
  | crashed post step =>
    obtain ⟨n, hn, same⟩ := List.mem_filterMap.mp hk
    rcases List.mem_cons.mp hn with rfl | hn
    · cases same
    · obtain ⟨x, -, rfl⟩ := List.mem_map.mp hn
      cases same
  | retired | succeeded => cases hk

namespace Exchange

variable {s s' : Exchange σ} {ns : List Note}

/-- Whoever begins a delivery has not crashed. -/
theorem Steps.tried (steps : s.Steps ns s') :
    ∀ k ∈ Pipeworks.tried ns, ∃ d ∈ s.dispatchers, d.name = k.recipient ∧ d.hasCrashed = false := by
  intro k hk
  cases steps with
  | dispatched found step =>
    exact ⟨_, List.mem_of_getElem? found, (step.tried k hk).symm, step.awake⟩
  | worked found step | finished found step =>
    rw [step.tried] at hk
    cases hk
  | requeued step => cases step <;> cases hk
  | aborted deadline next aborted joining found =>
    rw [Dispatcher.abortNotes] at hk
    split at hk <;> cases hk
  | truncated =>
    obtain ⟨n, hn, same⟩ := List.mem_filterMap.mp hk
    obtain ⟨r, -, rfl⟩ := List.mem_map.mp hn
    cases same
  | _ => cases hk

/-- A dispatcher that cannot take a step stays as it is, unless it is aborted. -/
theorem Steps.stays (steps : s.Steps ns s') {d : Dispatcher σ} (hd : d ∈ s.dispatchers)
    (still : ∀ ms d' f', ¬ d.Steps s.floor ms d' f') (spared : d.hasEnded ∨ s'.isRunning) :
    d ∈ s'.dispatchers := by
  have others {i : Nat} {x x' : Dispatcher σ} (found : s.dispatchers[i]? = some x) (ne : d ≠ x) :
      d ∈ s.dispatchers.set i x' := by
    obtain ⟨before, after⟩ := set_perm found
    rcases List.mem_cons.mp (before.mem_iff.mp hd) with same | other
    · exact absurd same ne
    · exact (after x').mem_iff.mpr (List.mem_cons_of_mem _ other)
  cases steps with
  | dispatched found step =>
    refine others found ?_
    rintro rfl
    exact still _ _ _ step
  | aborted deadline next aborted joining found going =>
    refine others found ?_
    rintro rfl
    rcases spared with ended | running
    · exact absurd (ended.symm.trans going) (by simp)
    · simp [isRunning] at running
  | _ => exact hd

/-- While the bus runs, deliveries are lost to a subscriber that crashes only. -/
theorem Steps.loses (steps : s.Steps ns s') (running : s.isRunning) {k : Parcel}
    (lost : k ∈ Pipeworks.gone ns) : ∃ d ∈ s'.dispatchers, d.name = k.recipient ∧ d.hasCrashed = true := by
  have off {c : Closing} (closing : s.closing = c) (other : c ≠ .running) : False :=
    other (closing.symm.trans (isRunning_iff.mp running))
  cases steps with
  | dispatched found step =>
    obtain ⟨name, crashed⟩ := step.loses lost
    exact ⟨_, mem_set found _, name.symm, crashed⟩
  | worked found step | finished found step =>
    rw [step.gone] at lost
    cases lost
  | requeued step => cases step <;> cases lost
  | aborted deadline next aborted joining => exact (off joining (by simp)).elim
  | truncated deadline next aborted joining => exact (off joining (by simp)).elim
  | _ => cases lost

end Exchange

namespace Audit

variable {s : Audit σ} {ns : List Note} {exchange : Exchange σ} {callers : List Emission}

theorem Steps.tried (steps : s.Steps ns exchange callers) :
    ∀ k ∈ Pipeworks.tried ns,
      ∃ d ∈ s.exchange.dispatchers, d.name = k.recipient ∧ d.hasCrashed = false := by
  intro k hk
  cases steps with
  | served found step => cases step <;> cases hk
  | moved step => exact step.tried k hk
  | _ => cases hk

theorem Steps.stays (steps : s.Steps ns exchange callers) {d : Dispatcher σ}
    (hd : d ∈ s.exchange.dispatchers) (still : ∀ ms d' f', ¬ d.Steps s.exchange.floor ms d' f')
    (spared : d.hasEnded ∨ exchange.isRunning) : d ∈ exchange.dispatchers := by
  cases steps with
  | subscribed running ok =>
    obtain ⟨bus, -, rfl⟩ := Exchange.subscribe_ok ok
    exact hd
  | started => exact List.mem_append_left _ hd
  | moved step => exact step.stays hd still spared
  | _ => exact hd

/-- A dispatcher that has crashed stays as it is. -/
theorem Steps.crashed (steps : s.Steps ns exchange callers) {d : Dispatcher σ}
    (hd : d ∈ s.exchange.dispatchers) (crashed : d.hasCrashed = true) :
    d ∈ exchange.dispatchers := by
  refine steps.stays hd (fun ms d' f' step => ?_) (.inl ?_)
  · exact absurd (crashed.symm.trans step.awake) (by simp)
  · rw [Dispatcher.hasCrashed] at crashed
    rw [Dispatcher.hasEnded]
    split at crashed <;> simp_all

/-- While the bus runs, whatever was lost was lost to a subscriber that has crashed. -/
theorem lost_play (policy : Policy) (world : σ) (acts : List (Act σ)) :
    (play policy world acts).exchange.isRunning → ∀ k ∈ gone (play policy world acts).history,
      ∃ d ∈ (play policy world acts).exchange.dispatchers,
        d.name = k.recipient ∧ d.hasCrashed = true := by
  refine play_induction (P := fun s => s.exchange.isRunning → ∀ k ∈ gone s.history,
    ∃ d ∈ s.exchange.dispatchers, d.name = k.recipient ∧ d.hasCrashed = true) nofun ?_ acts
  intro s ns exchange callers before steps running k hk
  rw [gone_append] at hk
  rcases List.mem_append.mp hk with old | new
  · obtain ⟨d, hd, name, crashed⟩ := before (steps.running running) k old
    exact ⟨d, steps.crashed hd crashed, name, crashed⟩
  · cases steps with
    | served found step =>
      rw [step.gone] at new
      cases new
    | moved step => exact step.loses (step.running running) new
    | _ => cases new

/-- Every delivery that was begun is in one place, or it has ended in one way. -/
theorem conserved_play (policy : Policy) (world : σ) (acts : List (Act σ)) :
    let s := play policy world acts
    (opened s.history).Perm (s.bus.waiting.map Prod.fst ++ s.exchange.handled.map Prod.fst ++
      s.bus.pending.map Prod.fst ++ succeeded s.history ++ givenUp s.history ++
      gone s.history) := by
  intro s
  have sound : s.Sound policy := sound_play policy world acts
  have kept := sound.posts.conservation
  have ended := filterMap_ended s.history
  rw [List.perm_iff_count] at kept ended ⊢
  intro k
  have hk := kept k
  have he := ended k
  simp only [Exchange.placed, Bus.placed, List.map_nil, List.nil_append, List.map_append,
    List.count_append] at hk he ⊢
  have same : s.exchange.bus = s.bus := rfl
  rw [same] at hk
  omega

/-- A subscriber that has crashed stays so, and begins no other delivery. -/
theorem crashed_play (policy : Policy) (world : σ) (acts : List (Act σ)) {d : Dispatcher σ}
    (hd : d ∈ (play policy world acts).exchange.dispatchers) (crashed : d.hasCrashed = true)
    (more : List (Act σ)) :
    d ∈ (play policy world (acts ++ more)).exchange.dispatchers ∧
      ∃ ns, (play policy world (acts ++ more)).history = (play policy world acts).history ++ ns ∧
        ∀ k ∈ Pipeworks.tried ns, k.recipient ≠ d.name := by
  induction more using List.reverseRecOn with
  | nil =>
    rw [List.append_nil]
    exact ⟨hd, [], (List.append_nil _).symm, nofun⟩
  | append_singleton more a ih =>
    obtain ⟨here, ns, history, silent⟩ := ih
    have names := nodup_dispatchers policy world (acts ++ more)
    obtain ⟨ms, exchange, callers, steps, next⟩ := (play policy world (acts ++ more)).steps_act a
    rw [← List.append_assoc, play_concat, next]
    refine ⟨steps.crashed here crashed, ns ++ ms, ?_, ?_⟩
    · rw [history, List.append_assoc]
    · intro k hk own
      rw [Pipeworks.tried, List.filterMap_append] at hk
      rcases List.mem_append.mp hk with old | new
      · exact silent k old own
      · obtain ⟨x, hx, name, awake⟩ := steps.tried k new
        obtain rfl := List.inj_on_of_nodup_map names hx here (name.trans own)
        simp [awake] at crashed

/-- What any act does to the dispatchers. -/
theorem turns_act (s : Audit σ) (a : Act σ) : s.exchange.Turns (s.act a).exchange.dispatchers ∨
    (s.act a).exchange.dispatchers = s.exchange.start.dispatchers := by
  cases a with
  | subscribe name topics deliver =>
    simp only [act, subscribe]
    split
    · split
      · rename_i exchange ok
        obtain ⟨bus, -, rfl⟩ := Exchange.subscribe_ok ok
        exact .inl .still
      · exact .inl .still
    · exact .inl .still
  | start =>
    simp only [act]
    split
    · exact .inr rfl
    · exact .inl .still
  | publish e =>
    simp only [act, publish]
    split <;> exact .inl .still
  | serve i =>
    simp only [act, serve]
    split
    · exact .inl .still
    · split
      · exact .inl .still
      · split <;> exact .inl .still
  | touch f => exact .inl .still
  | move m =>
    simp only [act, move]
    split
    · exact .inl .still
    · rename_i step
      exact .inl (Exchange.turns_of_step? step)
  | shutdown =>
    simp only [act]
    split <;> exact .inl .still

/-- As long as streams can have room, no subscriber crashes whose work ends in no panic. -/
theorem contained_play (policy : Policy) (world : σ) (acts : List (Act σ))
    (room : policy.streamCapacity ≤ maxRoom) : (play policy world acts).exchange.Contained := by
  induction acts using List.reverseRecOn with
  | nil => exact nofun
  | append_singleton acts a ih =>
    have same := (sound_play policy world acts).policy
    rw [play_concat]
    generalize play policy world acts = s at ih same
    rcases s.turns_act a with turns | started
    · exact turns.contained ih (le_of_eq_of_le (congrArg _ same) room) rfl
    · intro d hd works
      rw [started] at hd
      rcases List.mem_append.mp hd with old | new
      · exact ih d old works
      · obtain ⟨x, -, rfl⟩ := List.mem_map.mp new
        trivial

/-- What a panic costs, over every run of a bus and its continuations. Every delivery that was
begun is in one place or has ended in one way; while the bus runs, it is lost only to a subscriber
that has crashed. A subscriber that has crashed stays so and begins no other delivery, and nothing
waits for it. Processors do not crash, as long as streams can have room. -/
theorem panic_ends_subscriber (policy : Policy) (world : σ) (acts more : List (Act σ)) :
    let s := play policy world acts
    let t := play policy world (acts ++ more)
    ((opened s.history).Nodup ∧
      (opened s.history).Perm (s.bus.waiting.map Prod.fst ++ s.exchange.handled.map Prod.fst ++
        s.bus.pending.map Prod.fst ++ succeeded s.history ++ givenUp s.history ++
        gone s.history)) ∧
    (s.exchange.isRunning → ∀ k ∈ gone s.history,
      ∃ d ∈ s.exchange.dispatchers, d.name = k.recipient ∧ d.hasCrashed = true) ∧
    (∀ d ∈ s.exchange.dispatchers, d.hasCrashed = true →
      d ∈ t.exchange.dispatchers ∧ t.bus.contents d.name = [] ∧
        ∃ ns, t.history = s.history ++ ns ∧ ∀ k ∈ Pipeworks.tried ns, k.recipient ≠ d.name) ∧
    (policy.streamCapacity ≤ maxRoom → ∀ d ∈ s.exchange.dispatchers,
      ∀ name c outputs, d.deliver = processorWork name c outputs → d.hasCrashed = false) := by
  intro s t
  refine ⟨⟨(fair_play policy world acts).nodup, conserved_play policy world acts⟩,
    lost_play policy world acts, ?_, ?_⟩
  · intro d hd crashed
    obtain ⟨here, ns, history, silent⟩ := crashed_play policy world acts hd crashed more
    have deaf : t.bus.IsDeaf d.name := by
      refine isSilent_play policy world (acts ++ more) d here ?_
      rw [Dispatcher.hasCrashed] at crashed
      rw [Dispatcher.hasEnded]
      split at crashed <;> simp_all
    refine ⟨here, ?_, ns, history, silent⟩
    obtain ⟨m, known, empty⟩ := Option.map_eq_some_iff.mp deaf
    rw [Bus.contents, known, Option.map_some, Option.getD_some]
    exact congrArg Prod.fst empty
  · intro room d hd name c outputs work
    have contained := contained_play policy world acts room d hd fun e => by
      rw [work]
      exact contained_processorWork name c outputs e
    rw [Dispatcher.hasCrashed]
    split
    · rename_i post
      rw [post] at contained
      exact contained.elim
    · rfl

/-- A subscriber that panics, and two events for it. -/
def fright : List (Act Unit) :=
  [.subscribe "meek" ["t"] fun _ => .finish (.panicked (some "boo")), .start,
    .publish (.plain "t" .null), .publish (.plain "t" .null), .serve 0, .serve 0, .serve 1, .serve 1,
    .move (.dispatcher 0), .move (.dispatcher 0)]

/-- Both deliveries are lost, and whatever happens afterwards, the subscriber gets nothing. -/
theorem fright_ends_subscriber :
    gone (play .standard () fright).history = [⟨0, "meek"⟩, ⟨1, "meek"⟩] ∧
    (play .standard () (fright ++ [.publish (.plain "t" .null), .serve 2, .serve 2])).bus.contents
      "meek" = [] := by
  obtain ⟨-, lost, silent, -⟩ := panic_ends_subscriber .standard () fright
    [.publish (.plain "t" .null), .serve 2, .serve 2]
  obtain ⟨d, hd, name, crashed⟩ := lost rfl ⟨0, "meek"⟩ (List.mem_cons_self ..)
  refine ⟨rfl, ?_⟩
  have empty := (silent d hd crashed).2.1
  rw [name] at empty
  exact empty

end Audit

end Pipeworks
