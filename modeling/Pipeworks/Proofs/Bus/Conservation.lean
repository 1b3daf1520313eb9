import Pipeworks.Proofs.Bus.Recipients

/-!
# Conservation of deliveries

As long as the bus runs and no subscriber has panicked, every delivery that was
begun is in one place: in a mailbox, with its subscriber, pending, counted as
delivered, or counted as dead.
-/

namespace Pipeworks

variable {σ : Type}

/-! ## Counters -/

namespace Stats

/-- The counter of deliveries counts the deliveries that succeeded. -/
theorem delivered_foldl (h : List Note) (st : Stats) :
    (h.foldl Stats.note st).delivered = st.delivered + (succeeded h).length := by
  induction h generalizing st with
  | nil => rfl
  | cons n h ih =>
    have one : (st.note n).delivered = st.delivered + n.succeeded.toList.length := by
      cases n <;> rfl
    rw [List.foldl_cons, ih, one, succeeded, succeeded, filterMap_cons_toList, List.length_append,
      Nat.add_assoc]

/-- The counter of dead letters counts the dead letters that were recorded. -/
theorem deadLettered_foldl (h : List Note) (st : Stats) :
    (h.foldl Stats.note st).deadLettered = st.deadLettered + (letters h).length := by
  induction h generalizing st with
  | nil => rfl
  | cons n h ih =>
    have one : (st.note n).deadLettered = st.deadLettered + n.letter.toList.length := by
      cases n <;> rfl
    rw [List.foldl_cons, ih, one, letters, letters, filterMap_cons_toList, List.length_append,
      Nat.add_assoc]

end Stats

/-! ## Losses -/

theorem gone_append (h ns : List Note) : gone (h ++ ns) = gone h ++ gone ns :=
  List.filterMap_append

theorem Bus.Serves.gone {b b' : Bus} {e e' : Emission} {ns : List Note}
    (serves : b.Serves e ns e' b') : gone ns = [] := by
  cases serves <;> rfl

theorem Activity.Steps.gone {f f' : Floor σ} {a : Activity σ} {ns : List Note}
    {stride : Stride σ} (steps : Activity.Steps f a ns stride f') : gone ns = [] := by
  cases steps with
  | served step => exact step.gone
  | _ => rfl

/-- A dispatcher that has stepped had not crashed, and if it has not crashed now, the
step has lost nothing. -/
theorem Dispatcher.Steps.calm {f f' : Floor σ} {d d' : Dispatcher σ} {ns : List Note}
    (steps : d.Steps f ns d' f') (calm : d'.hasCrashed = false) :
    d.hasCrashed = false ∧ gone ns = [] := by
  have busy {x a} (post : d.post = .handling x a) : d.hasCrashed = false := by
    rw [hasCrashed, post]
  cases steps with
  | took idle | retired idle => exact ⟨by rw [hasCrashed, idle], rfl⟩
  | worked post step => exact ⟨busy post, step.gone⟩
  | succeeded post => exact ⟨busy post, rfl⟩
  | failed post =>
    refine ⟨busy post, ?_⟩
    rw [Bus.failureNote]
    split <;> rfl
  | crashed post => simp [hasCrashed] at calm

namespace Exchange

variable {s s' : Exchange σ} {ns : List Note}

theorem isCalm_iff : s.isCalm ↔ ∀ d ∈ s.dispatchers, d.hasCrashed = false := by
  simp [isCalm]

theorem calm_of_set {i : Nat} {d d' : Dispatcher σ} (found : s.dispatchers[i]? = some d)
    (dispatchers : s'.dispatchers = s.dispatchers.set i d') (before : d.hasCrashed = false)
    (calm : s'.isCalm) : s.isCalm := by
  rw [isCalm_iff] at calm ⊢
  obtain ⟨same, changed⟩ := set_perm found
  intro x hx
  rcases List.mem_cons.mp (same.mem_iff.mp hx) with rfl | hx
  · exact before
  · refine calm x (dispatchers ▸ (changed d').mem_iff.mpr ?_)
    exact List.mem_cons_of_mem _ hx

theorem mem_set {i : Nat} {d : Dispatcher σ} (found : s.dispatchers[i]? = some d)
    (d' : Dispatcher σ) : d' ∈ s.dispatchers.set i d' :=
  ((set_perm found).2 d').mem_iff.mpr (List.mem_cons_self ..)

/-- A panic is never forgotten. -/
theorem Steps.calm (steps : s.Steps ns s') (calm : s'.isCalm) : s.isCalm := by
  cases steps with
  | dispatched found step =>
    have after := isCalm_iff.mp calm _ (mem_set found _)
    exact calm_of_set found rfl (step.calm after).1 calm
  | @aborted d deadline next aborted joining found going =>
    have before : d.hasCrashed = false := by
      rw [Dispatcher.hasEnded] at going
      rw [Dispatcher.hasCrashed]
      split at going <;> simp_all
    exact calm_of_set found rfl before calm
  | _ => exact calm

/-- While the bus runs, only a panic loses deliveries. -/
theorem Steps.gone (steps : s.Steps ns s') (running : s.isRunning) (calm : s'.isCalm) :
    gone ns = [] := by
  have closing {c : Closing} (h : s.closing = c) (other : c ≠ .running) : False := by
    rw [isRunning] at running
    split at running <;> simp_all
  cases steps with
  | dispatched found step => exact (step.calm (isCalm_iff.mp calm _ (mem_set found _))).2
  | worked found step | finished found step => exact step.gone
  | requeued step => cases step <;> rfl
  | aborted deadline next aborted joining => exact (closing joining (by simp)).elim
  | truncated deadline next aborted joining => exact (closing joining (by simp)).elim
  | _ => rfl

/-- A bus that has begun to shut down never runs again. -/
theorem Steps.running (steps : s.Steps ns s') (running : s'.isRunning) : s.isRunning := by
  cases steps with
  | closed | joined | aborted | truncated | drained => simp [isRunning, truncate] at running
  | _ => exact running

end Exchange

/-! ## Runs -/

namespace Audit

variable {s : Audit σ} {ns : List Note} {exchange : Exchange σ} {callers : List Emission}

theorem Steps.calm (steps : s.Steps ns exchange callers) (calm : exchange.isCalm) :
    s.exchange.isCalm := by
  cases steps with
  | subscribed before ok =>
    obtain ⟨bus, -, rfl⟩ := Exchange.subscribe_ok ok
    exact calm
  | started =>
    apply Exchange.isCalm_iff.mpr
    intro d hd
    exact Exchange.isCalm_iff.mp calm d (List.mem_append_left _ hd)
  | moved step => exact step.calm calm
  | _ => exact calm

theorem Steps.running (steps : s.Steps ns exchange callers) (running : exchange.isRunning) :
    s.exchange.isRunning := by
  cases steps with
  | subscribed before | started before => exact before
  | moved step => exact step.running running
  | shut before => exact before
  | _ => exact running

/-- What happens to a bus that runs on without a panic loses nothing. -/
theorem Steps.gone (steps : s.Steps ns exchange callers) (running : exchange.isRunning)
    (calm : exchange.isCalm) : gone ns = [] := by
  cases steps with
  | served found step => exact step.gone
  | moved step => exact step.gone (step.running running) calm
  | _ => rfl

theorem gone_play (policy : Policy) (world : σ) (acts : List (Act σ)) :
    (play policy world acts).exchange.isRunning → (play policy world acts).exchange.isCalm →
      gone (play policy world acts).history = [] := by
  refine play_induction (P := fun s => s.exchange.isRunning → s.exchange.isCalm →
    gone s.history = []) (fun _ _ => rfl) ?_ acts
  intro s ns exchange callers ih steps running calm
  rw [gone_append, ih (steps.running running) (steps.calm calm), steps.gone running calm,
    List.append_nil]

/-- While the bus runs and no subscriber has panicked, each delivery that was begun is
in exactly one place: in a mailbox, with its subscriber, pending (among the retries or
in the hands of a tick), among the successes, or among those given up; the last two are
counted by the counters of the bus. -/
theorem every_delivery_in_one_place (policy : Policy) (world : σ) (acts : List (Act σ))
    (running : (play policy world acts).exchange.isRunning)
    (calm : (play policy world acts).exchange.isCalm) :
    let s := play policy world acts
    (opened s.history).Nodup ∧
    (opened s.history).Perm (s.bus.waiting.map Prod.fst ++ s.exchange.handled.map Prod.fst ++
      s.bus.pending.map Prod.fst ++ succeeded s.history ++ givenUp s.history) ∧
    (succeeded s.history).length = s.bus.stats.delivered ∧
    (givenUp s.history).length = s.bus.stats.deadLettered ∧
    (opened s.history).length = s.bus.waiting.length + s.exchange.handled.length +
      s.bus.pending.length + s.bus.stats.delivered + s.bus.stats.deadLettered := by
  intro s
  have sound : s.Sound policy := sound_play policy world acts
  have nodup : (opened s.history).Nodup := (fair_play policy world acts).nodup
  have nothing : gone s.history = [] := gone_play policy world acts running calm
  have placed : (opened s.history).Perm (s.bus.waiting.map Prod.fst ++
      s.exchange.handled.map Prod.fst ++ s.bus.pending.map Prod.fst ++ succeeded s.history ++
      givenUp s.history) := by
    have kept := sound.posts.conservation
    have ended := filterMap_ended s.history
    rw [nothing, List.append_nil] at ended
    rw [List.perm_iff_count] at kept ended ⊢
    intro k
    have hk := kept k
    have he := ended k
    simp only [Exchange.placed, Bus.placed, List.map_nil, List.nil_append, List.map_append,
      List.count_append] at hk he ⊢
    have same : s.exchange.bus = s.bus := rfl
    rw [same] at hk
    omega
  have delivered : (succeeded s.history).length = s.bus.stats.delivered := by
    rw [sound.stats, Stats.delivered_foldl]
    exact (Nat.zero_add _).symm
  have deadLettered : (givenUp s.history).length = s.bus.stats.deadLettered := by
    rw [sound.stats, Stats.deadLettered_foldl, givenUp, List.length_map]
    exact (Nat.zero_add _).symm
  refine ⟨nodup, placed, delivered, deadLettered, ?_⟩
  have lengths := placed.length_eq
  simp only [List.length_append, List.length_map] at lengths
  omega

/-- Two events for two subscribers: one of them succeeds, the other fails. When this
ends, the call that publishes the second event waits for its second recipient. -/
def trial : List (Act Unit) :=
  [.subscribe "up" ["t"] fun _ => .done,
    .subscribe "down" ["t"] fun _ => .fail (.run .busShutDown), .start,
    .publish (.plain "t" .null), .serve 0, .serve 0, .serve 0, .serve 0,
    .move (.dispatcher 0), .move (.dispatcher 0), .move (.dispatcher 1), .move (.dispatcher 1),
    .publish (.plain "t" .null), .serve 1, .serve 1]

set_option maxRecDepth 4000 in
/-- After the trial one delivery has succeeded, one is pending, and one waits. -/
theorem trial_in_one_place :
    (play .standard () trial).exchange.isRunning ∧ (play .standard () trial).exchange.isCalm ∧
    (opened (play .standard () trial).history).Nodup ∧
    (opened (play .standard () trial).history).Perm
      [⟨1, "up"⟩, ⟨0, "down"⟩, ⟨0, "up"⟩] := by
  obtain ⟨nodup, placed, -⟩ := every_delivery_in_one_place .standard () trial rfl rfl
  exact ⟨rfl, rfl, nodup, placed⟩

end Audit

end Pipeworks
