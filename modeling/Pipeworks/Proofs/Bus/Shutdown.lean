import Pipeworks.Proofs.Bus.InFlight
import Pipeworks.Proofs.Bus.Staff
import Pipeworks.Proofs.Bus.Line

/-!
# The end of a bus

Shutting down stops the ticks, waits for the work in flight, lets no mailbox be found any
more, waits for the dispatchers one after another, and discards what is pending. If it need
not abort a dispatcher, every dispatcher has emptied its mailbox, so that every delivery has
ended in one of three ways, and each way is counted.
-/

namespace Pipeworks

variable {σ : Type}

/-! ## How far it has come -/

namespace Closing

/-- Whether no mailbox is found any more. -/
def isShut : Closing → Bool
  | joining .. | draining .. | closed _ => true
  | _ => false

/-- Whether what was pending has been discarded. -/
def isDrained : Closing → Bool
  | draining .. | closed _ => true
  | _ => false

/-- How many of a number of dispatchers have been waited for. -/
def joined (all : Nat) : Closing → Nat
  | joining _ next _ => next
  | draining .. | closed _ => all
  | _ => 0

/-- How many dispatchers have been aborted. -/
def aborted : Closing → Nat
  | joining _ _ n | draining _ n _ _ => n
  | closed r => r.dispatchersAborted
  | _ => 0

/-- How many retries have been discarded. -/
def discarded : Closing → Nat
  | draining _ _ n _ => n
  | closed r => r.retriesDiscarded
  | _ => 0

theorem joined_of_isDrained {c : Closing} (drained : c.isDrained = true) (all : Nat) :
    c.joined all = all := by
  cases c <;> simp_all [isDrained, joined]

end Closing

/-! ## What a step leaves alone -/

/-- Two buses with the same retries; the counters are the same too once the bus is closed. -/
structure Bus.Aside (b b' : Bus) : Prop where
  retries : b'.retries = b.retries
  requeuing : b'.requeuing = b.requeuing
  expiring : b'.expiring = b.expiring
  closed : b'.closed = b.closed
  stats : b.closed = true → b'.stats = b.stats

theorem Bus.Aside.refl (b : Bus) : b.Aside b := ⟨rfl, rfl, rfl, rfl, fun _ => rfl⟩

theorem Bus.Same.aside {b b' : Bus} (same : b.Same b') : b.Aside b' :=
  ⟨same.retries, same.requeuing, same.expiring, same.closed, fun _ => same.stats⟩

theorem Bus.Serves.aside {b b' : Bus} {e e' : Emission} {ns : List Note}
    (serves : b.Serves e ns e' b') : b.Aside b' := by
  cases serves <;> exact ⟨rfl, rfl, rfl, rfl, fun _ => rfl⟩

theorem Bus.aside_accept {b b' : Bus} {e : Event} {emission : Emission}
    (ok : b.accept e = .ok (emission, b')) : b.Aside b' := by
  obtain ⟨running, -, rfl⟩ := Bus.accept_ok ok
  exact ⟨rfl, rfl, rfl, rfl, fun closed => by simp [running] at closed⟩

theorem Activity.Steps.aside {f f' : Floor σ} {a : Activity σ} {ns : List Note}
    {stride : Stride σ} (steps : Activity.Steps f a ns stride f') : f.bus.Aside f'.bus := by
  cases steps with
  | quiet same => exact same.aside
  | accepted ok => exact Bus.aside_accept ok
  | answered => exact .refl _
  | served step => exact step.aside

/-- A dispatcher that steps has not ended, and takes nothing from the hands of the ticks. -/
theorem Dispatcher.Steps.hands {f f' : Floor σ} {d d' : Dispatcher σ} {ns : List Note}
    (steps : d.Steps f ns d' f') :
    d.hasEnded = false ∧ f'.bus.requeuing = f.bus.requeuing ∧ f'.bus.expiring = f.bus.expiring ∧
      f'.bus.closed = f.bus.closed := by
  have going {post : Post σ} (here : d.post = post) (more : post ≠ .over ∧ post ≠ .crashed) :
      d.hasEnded = false := by
    rw [hasEnded]
    cases post <;> simp_all
  cases steps with
  | took idle taken =>
    obtain ⟨-, -, -, -, rfl⟩ := Bus.take?_eq_some taken
    exact ⟨going idle (by simp), rfl, rfl, rfl⟩
  | retired idle => exact ⟨going idle (by simp), rfl, rfl, rfl⟩
  | worked post step | succeeded post step | crashed post step =>
    exact ⟨going post (by simp), step.aside.requeuing, step.aside.expiring, step.aside.closed⟩
  | @failed x a ns e f' post step =>
    refine ⟨going post (by simp), ?_⟩
    rw [Bus.fail]
    cases f'.bus.policy.afterFailure f'.clock d.name x e.message <;>
      exact ⟨step.aside.requeuing, step.aside.expiring, step.aside.closed⟩

/-! ## What shutting down has settled -/

namespace Exchange

/-- What is settled at each stage of shutting down. -/
structure Ending (s : Exchange σ) (h : List Note) : Prop where
  /-- Nothing ticks any more. -/
  ticks : s.isRunning = false → s.retryTicks = [] ∧ s.sweepTicks = []
  shut : s.closing.isShut = true →
    s.bus.requeuing = [] ∧ s.bus.expiring = [] ∧ s.bus.closed = true
  joined : s.closing.aborted = 0 →
    ∀ d ∈ s.dispatchers.take (s.closing.joined s.dispatchers.length), d.hasEnded = true
  gone : s.closing.aborted = 0 → (gone h).length = s.closing.discarded
  retries : s.closing.aborted = 0 → s.closing.isDrained = true → s.bus.retries = []
  report : ∀ r, s.closing = .closed r → r.dispatchersAborted = 0 → r.stats = s.bus.stats

variable {s s' : Exchange σ} {h ns : List Note}

theorem isRunning_iff : s.isRunning ↔ s.closing = .running := by
  rw [isRunning]
  split <;> simp_all

/-- As long as mailboxes are found, nothing more than the ticks is settled. -/
theorem ending_of_open (shut : s.closing.isShut = false)
    (ticks : s.isRunning = false → s.retryTicks = [] ∧ s.sweepTicks = [])
    (nothing : Pipeworks.gone h = []) : s.Ending h := by
  refine ⟨ticks, ?_, ?_, ?_, ?_, ?_⟩ <;> cases closing : s.closing <;>
    simp_all [Closing.isShut, Closing.joined, Closing.discarded, Closing.isDrained]

/-- What is settled while the dispatchers are waited for. -/
theorem ending_of_joining {deadline next aborted : Nat}
    (joining : s.closing = .joining deadline next aborted)
    (ticks : s.retryTicks = [] ∧ s.sweepTicks = [])
    (shut : s.bus.requeuing = [] ∧ s.bus.expiring = [] ∧ s.bus.closed = true)
    (joined : aborted = 0 → ∀ d ∈ s.dispatchers.take next, d.hasEnded = true)
    (nothing : aborted = 0 → Pipeworks.gone h = []) : s.Ending h where
  ticks _ := ticks
  shut _ := shut
  joined := by
    rw [joining]
    exact joined
  gone := by
    rw [joining]
    exact fun whole => congrArg List.length (nothing whole)
  retries := by
    rw [joining]
    exact fun _ drained => absurd drained Bool.false_ne_true
  report r closed := by simp [joining] at closed

theorem Ending.kept (ending : s.Ending h) (shut : s.closing.isShut = false)
    (nothing : Pipeworks.gone ns = []) : Pipeworks.gone (h ++ ns) = [] := by
  have before := ending.gone
  rw [gone_append, nothing, List.append_nil]
  cases closing : s.closing <;>
    simp_all [Closing.isShut, Closing.aborted, Closing.discarded]

/-- What a step that leaves shutting down and the dispatchers alone does not unsettle. -/
theorem Ending.keep (ending : s.Ending h) (closing : s'.closing = s.closing)
    (ticks : s'.retryTicks = s.retryTicks ∧ s'.sweepTicks = s.sweepTicks)
    (dispatchers : s'.dispatchers = s.dispatchers) (aside : s.bus.Aside s'.bus)
    (nothing : Pipeworks.gone ns = []) : s'.Ending (h ++ ns) where
  ticks running := by
    rw [isRunning, closing] at running
    rw [ticks.1, ticks.2]
    exact ending.ticks running
  shut isShut := by
    rw [closing] at isShut
    rw [aside.requeuing, aside.expiring, aside.closed]
    exact ending.shut isShut
  joined := by
    rw [closing, dispatchers]
    exact ending.joined
  gone whole := by
    rw [closing] at whole ⊢
    rw [gone_append, nothing, List.append_nil]
    exact ending.gone whole
  retries := by
    rw [closing, aside.retries]
    exact ending.retries
  report r closed whole := by
    rw [closing] at closed
    have shut := ending.shut (by rw [closed]; rfl)
    rw [aside.stats shut.2.2]
    exact ending.report r closed whole

/-- Where all that have been waited for have ended, one that goes on has not been waited for. -/
theorem le_of_going {n i : Nat} {d : Dispatcher σ}
    (joined : ∀ d ∈ s.dispatchers.take n, d.hasEnded = true) (found : s.dispatchers[i]? = some d)
    (going : d.hasEnded = false) : n ≤ i := by
  by_contra early
  have there := joined d (List.mem_of_getElem? (i := i)
    (by rw [List.getElem?_take_of_lt (by omega), found]))
  rw [going] at there
  exact Bool.false_ne_true there

/-- A dispatcher that steps has not been waited for. -/
theorem Ending.dispatched (ending : s.Ending h) {i : Nat} {d d' : Dispatcher σ} {f' : Floor σ}
    (found : s.dispatchers[i]? = some d) (step : d.Steps s.floor ns d' f')
    (nothing : Pipeworks.gone ns = []) :
    Ending { s with floor := f', dispatchers := s.dispatchers.set i d' } (h ++ ns) := by
  obtain ⟨going, requeuing, expiring, closed⟩ := step.hands
  obtain ⟨inside, -⟩ := List.getElem?_eq_some_iff.mp found
  have later (whole : s.closing.aborted = 0) := le_of_going (ending.joined whole) found going
  have never (whole : s.closing.aborted = 0) (drained : s.closing.isDrained = true) : False := by
    have late := later whole
    rw [Closing.joined_of_isDrained drained] at late
    omega
  refine ⟨ending.ticks, fun isShut => ?_, fun whole => ?_, fun whole => ?_, fun whole drained => ?_,
    fun r closed' whole => ?_⟩
  · have shut := ending.shut isShut
    exact ⟨requeuing.trans shut.1, expiring.trans shut.2.1, closed.trans shut.2.2⟩
  · dsimp only
    rw [List.length_set, List.take_set_of_le (later whole)]
    exact ending.joined whole
  · rw [gone_append, nothing, List.append_nil]
    exact ending.gone whole
  · exact (never whole drained).elim
  · have closed' : s.closing = .closed r := closed'
    exact (never (by rw [closed']; exact whole) (by rw [closed']; rfl)).elim

/-- Nothing ticks once shutting down has begun. -/
theorem Ending.halted (ending : s.Ending h) (other : s.closing ≠ .running) :
    s.retryTicks = [] ∧ s.sweepTicks = [] :=
  ending.ticks (Bool.eq_false_iff.mpr fun run => other (isRunning_iff.mp run))

/-- A tick settles nothing, since shutting down has not begun. -/
theorem Ending.ticked (ending : s.Ending h) (ticking : s.retryTicks ≠ [] ∨ s.sweepTicks ≠ [])
    (same : s'.closing = s.closing) (nothing : Pipeworks.gone ns = []) : s'.Ending (h ++ ns) := by
  have run : s.closing = .running := by
    by_contra other
    obtain ⟨noRetry, noSweep⟩ := ending.halted other
    exact ticking.elim (· noRetry) (· noSweep)
  have shut : s.closing.isShut = false := by rw [run]; rfl
  refine ending_of_open (same ▸ shut) (fun off => ?_) (ending.kept shut nothing)
  rw [isRunning, same, run] at off
  exact absurd off (by simp)

/-- While a tick has something in its hands, mailboxes are found. -/
theorem Ending.open_of_hands (ending : s.Ending h)
    (busy : s.bus.requeuing ≠ [] ∨ s.bus.expiring ≠ []) : s.closing.isShut = false := by
  refine Bool.eq_false_iff.mpr fun shut => ?_
  obtain ⟨noRetry, noLetter, -⟩ := ending.shut shut
  exact busy.elim (· noRetry) (· noLetter)

/-- What has been settled when the dispatchers are waited for, as `ending_of_joining` asks it. -/
theorem Ending.of_joining (ending : s.Ending h) {deadline next aborted : Nat}
    (joining : s.closing = .joining deadline next aborted) :
    (s.retryTicks = [] ∧ s.sweepTicks = []) ∧
    (s.bus.requeuing = [] ∧ s.bus.expiring = [] ∧ s.bus.closed = true) ∧
    (aborted = 0 → ∀ d ∈ s.dispatchers.take next, d.hasEnded = true) ∧
    (aborted = 0 → Pipeworks.gone h = []) := by
  have ticks := ending.halted (by simp [joining])
  obtain ⟨-, shut, joined, gone, -⟩ := ending
  rw [joining] at shut joined gone
  exact ⟨ticks, shut rfl, joined, fun whole => List.length_eq_zero_iff.mp (gone whole)⟩

/-- When all dispatchers have been waited for, what is pending is discarded. -/
theorem Ending.truncate (ending : s.Ending h) {deadline next aborted : Nat}
    (joining : s.closing = .joining deadline next aborted) (all : s.dispatchers[next]? = none) :
    (s.truncate deadline aborted).Ending (h ++ s.bus.retries.map .discarded) := by
  obtain ⟨ticks, shut, joined, nothing⟩ := ending.of_joining joining
  refine ⟨fun _ => ticks, fun _ => shut, fun whole d hd => ?_, fun whole => ?_, fun _ _ => rfl,
    fun r closed => by simp [Exchange.truncate] at closed⟩
  · rw [List.take_of_length_le (List.getElem?_eq_none_iff.mp all)] at joined
    exact joined whole d (List.mem_of_mem_take hd)
  · have discarded :
        Pipeworks.gone (s.bus.retries.map .discarded) = s.bus.retries.map Retry.parcel := by
      rw [Pipeworks.gone, List.filterMap_map, ← List.filterMap_eq_map]
      rfl
    rw [gone_append, nothing whole, List.nil_append, discarded, List.length_map]
    rfl

/-- Every step of shutting down settles what belongs to its stage, and no step unsettles
anything, unless somebody panics. -/
theorem Ending.step (ending : s.Ending h) (steps : s.Steps ns s') (calm : s'.isCalm) :
    s'.Ending (h ++ ns) := by
  cases steps with
  | @dispatched i d ns d' f' found step =>
    exact ending.dispatched found step (step.calm (isCalm_iff.mp calm _ (mem_set found d'))).2
  | worked found step => exact ending.keep rfl ⟨rfl, rfl⟩ rfl step.aside step.gone
  | finished found step =>
    obtain ⟨retries, requeuing, expiring, closed, stats⟩ := step.aside
    exact ending.keep rfl ⟨rfl, rfl⟩ rfl ⟨retries, requeuing, expiring, closed, stats⟩ step.gone
  | retryTick _ some => exact ending.ticked (.inl some) rfl rfl
  | sweepTick _ some => exact ending.ticked (.inr some) rfl rfl
  | requeued step =>
    have shut : s.closing.isShut = false :=
      ending.open_of_hands (.inl (by cases step <;> simp_all))
    exact ending_of_open shut ending.ticks (ending.kept shut (by cases step <;> rfl))
  | expired l rest hand =>
    have shut : s.closing.isShut = false := ending.open_of_hands (.inr (by simp [hand]))
    exact ending_of_open shut ending.ticks (ending.kept shut rfl)
  | closed deadline settling empty =>
    have nothing : Pipeworks.gone (h ++ []) = [] := ending.kept (by rw [settling]; rfl) rfl
    simp only [handsEmpty, Bool.and_eq_true, List.isEmpty_iff] at empty
    exact ending_of_joining rfl (ending.halted (by simp [settling])) ⟨empty.1, empty.2, rfl⟩
      (fun _ _ hd => absurd hd List.not_mem_nil) fun _ => nothing
  | @joined d deadline next aborted joining found ended =>
    obtain ⟨ticks, shut, before, nothing⟩ := ending.of_joining joining
    rw [List.append_nil]
    refine ending_of_joining rfl ticks shut (fun whole => ?_) nothing
    rw [List.take_add_one, found, Option.toList_some]
    exact List.forall_mem_append.mpr ⟨before whole, List.forall_mem_singleton.mpr ended⟩
  | aborted deadline next aborted joining found =>
    obtain ⟨ticks, shut, -⟩ := ending.of_joining joining
    exact ending_of_joining rfl ticks shut (fun whole => absurd whole (Nat.succ_ne_zero _))
      fun whole => absurd whole (Nat.succ_ne_zero _)
  | truncated deadline next aborted joining all => exact ending.truncate joining all
  | drained deadline aborted retries truncated draining =>
    have ticks := ending.halted (by simp [draining])
    obtain ⟨-, shut, joined, gone, retries, -⟩ := ending
    rw [draining] at shut joined gone retries
    rw [List.append_nil]
    refine ⟨fun _ => ticks, fun _ => shut rfl, joined, gone, fun whole _ => retries whole rfl, ?_⟩
    rintro r closed -
    obtain rfl := Closing.closed.inj closed
    rfl
  | waited => exact ending.keep rfl ⟨rfl, rfl⟩ rfl (.refl _) rfl
  | interrupted => exact ending.keep rfl ⟨rfl, rfl⟩ rfl (.refl _) rfl

end Exchange

/-! ## Buses that are not closed -/

/-- A bus that is closed stays so. -/
theorem Exchange.Steps.shut {s s' : Exchange σ} {ns : List Note} (steps : s.Steps ns s')
    (shut : s.closing.isShut = true) : s'.closing.isShut = true := by
  cases steps with
  | closed | joined | aborted | truncated | drained => rfl
  | _ => exact shut

/-- A bus that has not been closed was not closed before, and no dispatcher is aborted on it. -/
theorem Exchange.Steps.still_whole {s s' : Exchange σ} {ns : List Note} (steps : s.Steps ns s')
    (opened : s'.closing.isShut = false) (whole : s.isWhole) : s'.isWhole := by
  rw [isWhole_iff] at whole ⊢
  cases steps with
  | @dispatched i d ns d' f' found step =>
    intro x hx
    rcases List.mem_or_eq_of_mem_set hx with hx | rfl
    · exact whole x hx
    · cases step <;> rfl
  | aborted => exact absurd opened (by simp [Closing.isShut])
  | _ => exact whole

theorem Audit.Steps.still_whole {s : Audit σ} {ns : List Note} {exchange : Exchange σ}
    {callers : List Emission} (steps : s.Steps ns exchange callers)
    (opened : exchange.closing.isShut = false) (whole : s.exchange.isWhole) : exchange.isWhole := by
  cases steps with
  | subscribed running ok =>
    obtain ⟨bus, -, rfl⟩ := Exchange.subscribe_ok ok
    exact whole
  | started =>
    refine Exchange.isWhole_iff.mpr fun d hd => ?_
    rcases List.mem_append.mp hd with old | new
    · exact Exchange.isWhole_iff.mp whole d old
    · obtain ⟨x, -, rfl⟩ := List.mem_map.mp new
      rfl
  | moved step => exact step.still_whole opened whole
  | _ => exact whole

theorem Audit.Steps.still_open {s : Audit σ} {ns : List Note} {exchange : Exchange σ}
    {callers : List Emission} (steps : s.Steps ns exchange callers)
    (opened : exchange.closing.isShut = false) : s.exchange.closing.isShut = false := by
  cases steps with
  | subscribed running ok =>
    obtain ⟨bus, -, rfl⟩ := Exchange.subscribe_ok ok
    exact opened
  | shut running =>
    rw [Exchange.isRunning_iff.mp running]
    rfl
  | moved step =>
    by_contra shut
    rw [Bool.not_eq_false] at shut
    exact absurd (opened.symm.trans (step.shut shut)) Bool.false_ne_true
  | _ => exact opened

/-- As long as the bus is not closed, nobody has been aborted. -/
theorem Audit.whole_play (policy : Policy) (world : σ) (acts : List (Act σ)) :
    (play policy world acts).exchange.closing.isShut = false →
      (play policy world acts).exchange.isWhole :=
  play_induction (P := fun s => s.exchange.closing.isShut = false → s.exchange.isWhole)
    (fun _ => rfl)
    (fun _ _ _ _ before steps opened => steps.still_whole opened (before (steps.still_open opened)))
    acts

/-! ## Mailboxes without a dispatcher -/

namespace Bus

variable {b b' : Bus} {name : String} {ns : List Note}

theorem Passes.isDeaf (passes : Passes name b ns b') (deaf : b.IsDeaf name) : b'.IsDeaf name := by
  cases passes with
  | moved _ stays => exact (stays deaf).1
  | deserted after => exact after

theorem isDeaf_desert (b : Bus) {name : String} (known : name ∈ b.names) :
    (b.desert name).IsDeaf name := by
  rw [IsDeaf, desert, intake_changeMailbox rfl, if_pos rfl]
  cases found : b.mailbox? name with
  | none => exact absurd known (notMem_names found)
  | some m => rfl

end Bus

/-- A dispatcher that ends leaves its mailbox empty, and nobody takes from it any more. -/
theorem Dispatcher.Steps.isDeaf {f f' : Floor σ} {d d' : Dispatcher σ} {ns : List Note}
    (steps : d.Steps f ns d' f') (known : d.name ∈ f.bus.names) (ended : d'.hasEnded = true) :
    f'.bus.IsDeaf d'.name := by
  cases steps with
  | retired => exact f.bus.isDeaf_desert known
  | @crashed x a ns text f' post step =>
    exact f'.bus.isDeaf_desert (by rw [Bus.names, step.ended.mailboxes]; exact known)
  | took | worked | succeeded | failed => simp [hasEnded] at ended

/-- The deliveries that wait for subscribers that have not been started. -/
def Exchange.unserved (s : Exchange σ) : List (Parcel × Spot) :=
  (s.bus.mailboxes.filter fun m => s.unstarted.any (·.1 == m.1)).flatMap copiesIn

/-- Whoever has a dispatcher that has ended gets nothing any more. -/
def Exchange.IsSilent (s : Exchange σ) : Prop :=
  ∀ d ∈ s.dispatchers, d.hasEnded = true → s.bus.IsDeaf d.name

namespace Audit

variable {p : Policy} {s : Audit σ} {ns : List Note} {exchange : Exchange σ}
  {callers : List Emission}

theorem Steps.isSilent (steps : s.Steps ns exchange callers) (sound : s.Sound p)
    (staff : s.exchange.staff.Perm s.bus.names) (silent : s.exchange.IsSilent) :
    exchange.IsSilent := by
  have stays {d : Dispatcher σ} (hd : d ∈ s.exchange.dispatchers) (ended : d.hasEnded = true) :
      exchange.bus.IsDeaf d.name :=
    (steps.passes sound.tried d.name).isDeaf (silent d hd ended)
  cases steps with
  | subscribed running ok =>
    obtain ⟨bus, -, rfl⟩ := Exchange.subscribe_ok ok
    exact fun d hd => stays hd
  | started =>
    intro d hd ended
    rcases List.mem_append.mp hd with hd | hd
    · exact stays hd ended
    · obtain ⟨x, -, rfl⟩ := List.mem_map.mp hd
      simp [Dispatcher.hasEnded] at ended
  | moved step =>
    cases step with
    | @dispatched i d ns d' f' found step =>
      obtain ⟨before, after⟩ := set_perm found
      intro x hx ended
      rcases List.mem_cons.mp ((after d').mem_iff.mp hx) with rfl | hx
      · refine step.isDeaf (staff.mem_iff.mp (List.mem_append_right _ ?_)) ended
        exact List.mem_map_of_mem (List.mem_of_getElem? found)
      · exact stays (before.mem_iff.mpr (List.mem_cons_of_mem _ hx)) ended
    | @aborted d deadline next aborted joining found =>
      obtain ⟨before, after⟩ := set_perm found
      intro x hx ended
      rcases List.mem_cons.mp ((after _).mem_iff.mp hx) with rfl | hx
      · simp [Dispatcher.hasEnded] at ended
      · exact stays (before.mem_iff.mpr (List.mem_cons_of_mem _ hx)) ended
    | _ => exact fun d hd => stays hd
  | _ => exact fun d hd => stays hd

theorem Steps.ending (steps : s.Steps ns exchange callers) (calm : exchange.isCalm)
    (ending : s.exchange.Ending s.history) : exchange.Ending (s.history ++ ns) := by
  have opened (running : s.exchange.isRunning) : s.exchange.closing.isShut = false := by
    rw [Exchange.isRunning_iff.mp running]
    rfl
  cases steps with
  | subscribed running ok =>
    obtain ⟨bus, done, rfl⟩ := Exchange.subscribe_ok ok
    exact Exchange.ending_of_open (opened running) ending.ticks (ending.kept (opened running) rfl)
  | started running =>
    refine Exchange.ending_of_open (opened running) (fun off => ?_) (ending.kept (opened running) rfl)
    have on : s.exchange.start.isRunning = true := running
    exact absurd (on.symm.trans off) (by simp)
  | published ok => exact ending.keep rfl ⟨rfl, rfl⟩ rfl (Bus.aside_accept ok) rfl
  | served found step => exact ending.keep rfl ⟨rfl, rfl⟩ rfl step.aside step.gone
  | moved step => exact ending.step step calm
  | shut running =>
    exact Exchange.ending_of_open rfl (fun _ => ⟨rfl, rfl⟩) (ending.kept (opened running) rfl)
  | idle | answered | touched => exact ending.keep rfl ⟨rfl, rfl⟩ rfl (.refl _) rfl

theorem ending_play (policy : Policy) (world : σ) (acts : List (Act σ)) :
    (play policy world acts).exchange.isCalm →
      (play policy world acts).exchange.Ending (play policy world acts).history :=
  play_induction (P := fun s => s.exchange.isCalm → s.exchange.Ending s.history)
    (fun _ => Exchange.ending_of_open rfl (fun off => absurd off (by simp [fresh, Exchange.fresh,
      Exchange.isRunning])) rfl)
    (fun _ _ _ _ before steps calm => steps.ending calm (before (steps.calm calm))) acts

theorem isSilent_play (policy : Policy) (world : σ) (acts : List (Act σ)) :
    (play policy world acts).exchange.IsSilent :=
  (play_induction (P := fun s => (s.Sound policy ∧ s.exchange.staff.Perm s.bus.names) ∧
    s.exchange.IsSilent) ⟨⟨sound_fresh policy world, .refl _⟩, List.forall_mem_nil _⟩
    (fun _ _ _ _ all steps => ⟨⟨all.1.1.step steps, steps.staff all.1.1 all.1.2⟩,
      steps.isSilent all.1.1 all.1.2 all.2⟩) acts).2

/-- An event for a subscriber that comes when the others have been started, and is not. -/
def late : List (Act Unit) :=
  [.start, .subscribe "late" ["t"] fun _ => .done, .publish (.plain "t" .null),
    .serve 0, .serve 0, .serve 0, .shutdown, .move (.wait Policy.standard.shutdownGrace),
    .move .closing, .move .closing, .move .closing]

end Audit

end Pipeworks
