import Pipeworks.Proofs.Bus.Timing

/-!
# What is said of a delivery that waits

A delivery has a setback when an attempt at it fails, and again each time its retry is due but finds no
room. `Audit.setbacks` are the setbacks of one delivery, in their order. A retry that could not be queued
goes back with everything that the last failure left, but for its error: having found no room, it says so
and no longer why the attempt failed. The letter of a retry that is given up repeats what the retry says.
-/

namespace Pipeworks

variable {σ : Type}

/-! ## Setbacks -/

/-- Why a delivery has to wait. -/
inductive Setback where
  /-- The attempt failed, and the retry followed. -/
  | failed (r : Retry)
  /-- There was no room for the retry. -/
  | crowdedOut
  deriving Repr

/-- The retry that followed a failure. -/
def Setback.retry? : Setback → Option Retry
  | failed r => some r
  | crowdedOut => none

/-- The retry that a note says has followed a failure of a delivery. -/
def Note.postponement (k : Parcel) : Note → Option Retry
  | postponed r => if r.parcel = k then some r else none
  | _ => none

/-- The retries that followed the failures of a delivery. -/
def postponements (k : Parcel) (h : List Note) : List Retry :=
  h.filterMap (Note.postponement k)

/-- The first retry in the hand, if its mailbox can be found but has no room for it. -/
def Bus.crowdedOut (b : Bus) : Option Retry :=
  b.requeuing.head?.filter fun r =>
    match b.mailbox? r.subscriber with
    | some m => m.listed && !(m.receiving && decide (m.items.length < b.capacity))
    | none => false

namespace Audit

/-- The retry that an act finds no room for. -/
def crowdedOut (s : Audit σ) : Act σ → Option Retry
  | .move .requeue => s.bus.crowdedOut
  | _ => none

/-- The setbacks that a delivery has in an act. -/
def setbacksIn (s : Audit σ) (a : Act σ) (k : Parcel) : List Setback :=
  (postponements k ((s.act a).history.drop s.history.length)).map .failed ++
    ((s.crowdedOut a).filter (·.parcel = k)).toList.map fun _ => .crowdedOut

/-- The setbacks that a delivery has in some acts. -/
def setbacksOver (s : Audit σ) (k : Parcel) : List (Act σ) → List Setback
  | [] => []
  | a :: acts => s.setbacksIn a k ++ (s.act a).setbacksOver k acts

/-- The setbacks of a delivery in a schedule. -/
def setbacks (policy : Policy) (world : σ) (acts : List (Act σ)) (k : Parcel) : List Setback :=
  (fresh policy world).setbacksOver k acts

theorem setbacks_concat (policy : Policy) (world : σ) (acts : List (Act σ)) (a : Act σ) (k : Parcel) :
    setbacks policy world (acts ++ [a]) k =
      setbacks policy world acts k ++ (play policy world acts).setbacksIn a k := by
  rw [setbacks, setbacks, play]
  generalize fresh policy world = s
  induction acts generalizing s with
  | nil =>
    rw [List.nil_append, setbacksOver, setbacksOver, setbacksOver, List.append_nil]
    rfl
  | cons b acts ih =>
    rw [List.cons_append, setbacksOver, setbacksOver, ih, List.append_assoc, List.foldl_cons]

end Audit

/-! ## Retries -/

/-- A retry for the same attempt at the same delivery, due no earlier. -/
structure Retry.Continues (r r₀ : Retry) : Prop where
  parcel : r.parcel = r₀.parcel
  event : r.event = r₀.event
  attempts : r.attempts = r₀.attempts
  firstFailure : r.firstFailure = r₀.firstFailure
  due : r₀.due ≤ r.due

namespace Retry.Continues

variable {r r₀ r₁ : Retry}

theorem refl (r : Retry) : r.Continues r := ⟨rfl, rfl, rfl, rfl, Nat.le_refl _⟩

theorem trans (second : r.Continues r₁) (first : r₁.Continues r₀) : r.Continues r₀ where
  parcel := second.parcel.trans first.parcel
  event := second.event.trans first.event
  attempts := second.attempts.trans first.attempts
  firstFailure := second.firstFailure.trans first.firstFailure
  due := Nat.le_trans first.due second.due

theorem later {p : Policy} {now : Nat} (ready : r.due ≤ now) : (r.later p now).Continues r :=
  ⟨rfl, rfl, rfl, rfl, Nat.le_trans ready (Nat.le_add_right ..)⟩

end Retry.Continues

/-- What a retry keeps of its delivery, which had some setbacks: it continues the retry that followed the
last failure, and says why that attempt failed unless it has been crowded out since. -/
def Retry.Keeps (r : Retry) (told : List Setback) : Prop :=
  ∃ before r₀ n, told = before ++ .failed r₀ :: List.replicate n .crowdedOut ∧ r.Continues r₀ ∧
    r.lastError = if n = 0 then r₀.lastError else Bus.queueFull

/-- What the letter of a retry that was given up says. -/
def DeadLetter.Repeats (l : DeadLetter) (told : List Setback) : Prop :=
  ∃ r : Retry, r.Keeps told ∧ (l = r.giveUp "retry expired" ∨ l = r.giveUp "subscriber gone")

theorem Retry.keeps_failed (r : Retry) (before : List Setback) :
    r.Keeps (before ++ [.failed r]) :=
  ⟨before, r, 0, rfl, .refl r, rfl⟩

theorem Retry.Keeps.later {r : Retry} {told : List Setback} (keeps : r.Keeps told) {p : Policy}
    {now : Nat} (ready : r.due ≤ now) : (r.later p now).Keeps (told ++ [.crowdedOut]) := by
  obtain ⟨before, r₀, n, rfl, continues, -⟩ := keeps
  refine ⟨before, r₀, n + 1, ?_, (Continues.later ready).trans continues, rfl⟩
  rw [List.append_assoc, List.cons_append, List.replicate_succ']

namespace Bus

/-- Only an empty hand keeps a retry from being queued or put back. -/
theorem empty_of_requeue? {b : Bus} {now : Nat} (h : b.requeue? now = none) : b.requeuing = [] := by
  rw [requeue?] at h
  split at h
  · assumption
  · dsimp only at h
    split at h
    · simp at h
    · split at h
      · simp at h
      · split at h <;> simp at h

/-- What becomes of the first retry in the hand. -/
inductive Retried (b : Bus) (now : Nat) (r : Retry) : List Note → Bus → Prop where
  /-- It goes back as it is, as its subscriber has no mailbox. -/
  | returned {b' : Bus} (dead : b.isLive r.subscriber = false) (room : b.crowdedOut = none)
      (back : b'.retries = b.retries ++ [r]) : Retried b now r [] b'
  /-- It goes back for later. -/
  | later {b' : Bus} (live : b.isLive r.subscriber = true) (crowded : b.crowdedOut = some r)
      (back : b'.retries = b.retries ++ [r.later b.policy now]) : Retried b now r [] b'
  | queued {b' : Bus} (live : b.isLive r.subscriber = true) (room : b.crowdedOut = none)
      (gone : b'.retries = b.retries) : Retried b now r [.requeued r] b'

theorem Requeues.retried {b b' : Bus} {now : Nat} {ns : List Note} (requeues : b.Requeues now ns b') :
    ∃ r rest, b.requeuing = r :: rest ∧ b.Retried now r ns b' := by
  have first {r : Retry} {rest : Retries} (hand : b.requeuing = r :: rest) (full : Bool)
      (is : (match b.mailbox? r.subscriber with
        | some m => m.listed && !(m.receiving && decide (m.items.length < b.capacity))
        | none => false) = full) : b.crowdedOut = if full then some r else none := by
    rw [crowdedOut, hand, List.head?_cons, Option.filter_some, is]
  cases requeues with
  | returned r rest hand dead =>
    refine ⟨r, rest, hand, .returned dead (first hand false ?_) rfl⟩
    rw [isLive] at dead
    split at dead <;> simp_all
  | put r rest m hand known listed receiving room =>
    refine ⟨r, rest, hand, .queued ?_ (first hand false ?_) rfl⟩
    · rw [isLive, known]
      exact listed
    · rw [known]
      simp [receiving, room]
  | full r rest m hand known listed crowded =>
    refine ⟨r, rest, hand, .later ?_ (first hand true ?_) rfl⟩
    · rw [isLive, known]
      exact listed
    · rw [known]
      simp [listed, crowded]

end Bus

/-! ## Steps -/

/-- A program records no letter. -/
theorem Activity.Steps.not_expired {f f' : Floor σ} {a : Activity σ} {ns : List Note}
    {stride : Stride σ} (steps : Activity.Steps f a ns stride f') (l : DeadLetter) :
    .expired l ∉ ns := by
  cases steps with
  | quiet => exact List.not_mem_nil
  | accepted | answered => simp
  | served step => cases step <;> simp

namespace Exchange

variable {s s' : Exchange σ}

theorem retries_of_closingStep? (h : s.closingStep? = some s') : s'.bus.retries ⊆ s.bus.retries := by
  rw [closingStep?] at h
  split at h
  · simp at h
  · split at h
    · obtain rfl := Option.some.inj h
      exact List.Subset.refl _
    · simp at h
  · split at h
    · obtain rfl := Option.some.inj h
      exact List.nil_subset _
    · split at h
      · obtain rfl := Option.some.inj h
        exact List.Subset.refl _
      · split at h
        · obtain rfl := Option.some.inj h
          exact List.Subset.refl _
        · simp at h
  · obtain ⟨-, h⟩ := Option.ite_none_right_eq_some.mp h
    obtain rfl := Option.some.inj h
    exact List.Subset.refl _
  · simp at h

/-- Beside the step that queues a retry again, only failures make retries. -/
theorem retries_of_step? {m : Move} (h : s.step? m = some s') (other : m ≠ .requeue) {r : Retry}
    (hr : r ∈ s'.bus.retries) : r ∈ s.bus.retries ∨ .postponed r ∈ s.notes m := by
  cases m with
  | dispatcher i =>
    obtain ⟨d, found, h⟩ := Option.bind_eq_some_iff.mp h
    obtain ⟨⟨d', f'⟩, step, rfl⟩ := Option.map_eq_some_iff.mp h
    have notes : s.notes (.dispatcher i) = d.notes s.floor := by simp [Exchange.notes, found]
    rw [notes]
    exact (Dispatcher.steps_of_step? step).rounds.retries r hr
  | task i =>
    obtain ⟨a, -, h⟩ := Option.bind_eq_some_iff.mp h
    obtain ⟨⟨stride, f'⟩, step, rfl⟩ := Option.map_eq_some_iff.mp h
    have same := (Activity.steps_of_step? step).aside.retries
    left
    cases stride <;> exact same ▸ hr
  | retryTick i =>
    obtain ⟨ticks, -, rfl⟩ := Option.map_eq_some_iff.mp h
    change r ∈ (s.bus.retries.takeDue s.clock).2 at hr
    rw [Retries.takeDue, List.partition_eq_filter_filter] at hr
    exact .inl (List.mem_of_mem_filter hr)
  | requeue => exact absurd rfl other
  | sweepTick i =>
    obtain ⟨ticks, -, rfl⟩ := Option.map_eq_some_iff.mp h
    change r ∈ (s.bus.retries.purge _ _ _).2 at hr
    rw [Retries.purge, List.partition_eq_filter_filter] at hr
    exact .inl (List.mem_of_mem_filter hr)
  | expire =>
    obtain ⟨bus, step, rfl⟩ := Option.map_eq_some_iff.mp h
    rw [Bus.expire?] at step
    split at step
    · simp at step
    · obtain rfl := Option.some.inj step
      exact .inl hr
  | closing => exact .inl (retries_of_closingStep? h hr)
  | wait ms | interrupt =>
    obtain rfl := Option.some.inj h
    exact .inl hr

/-- Where the letters come from that are in the hand after a step, and those that it records. -/
structure Expires (s : Exchange σ) (ns : List Note) (s' : Exchange σ) : Prop where
  expiring : ∀ l ∈ s'.bus.expiring, l ∈ s.bus.expiring ∨ ∃ r ∈ s.bus.retries, l = s.bus.staleLetter r
  expired : ∀ l, .expired l ∈ ns → l ∈ s.bus.expiring

theorem Expires.same {ns : List Note} (same : s'.bus.expiring = s.bus.expiring)
    (silent : ∀ l, .expired l ∉ ns) : s.Expires ns s' :=
  ⟨fun _ hl => .inl (same ▸ hl), fun l hl => absurd hl (silent l)⟩

theorem Steps.expires {ns : List Note} (steps : s.Steps ns s') : s.Expires ns s' := by
  cases steps with
  | dispatched found step =>
    refine .same step.hands.2.2.1 fun l hl => ?_
    cases step with
    | worked post step => exact absurd hl (step.not_expired l)
    | failed post step =>
      rw [Bus.failureNote] at hl
      split at hl <;> simp at hl
    | _ => simp at hl
  | worked found step | finished found step =>
    exact .same step.aside.expiring step.not_expired
  | requeued step => exact .same (by cases step <;> rfl) (by cases step <;> simp)
  | sweepTick sweepTicks =>
    refine ⟨fun l hl => ?_, by simp⟩
    change l ∈ s.bus.expiring ++ (s.bus.retries.purge _ _ _).1.map s.bus.staleLetter at hl
    rcases List.mem_append.mp hl with old | new
    · exact .inl old
    · obtain ⟨r, hr, rfl⟩ := List.mem_map.mp new
      rw [Retries.purge, List.partition_eq_filter_filter] at hr
      exact .inr ⟨r, List.mem_of_mem_filter hr, rfl⟩
  | expired l rest hand =>
    refine ⟨fun x hx => .inl ?_, fun x hx => ?_⟩
    · rw [hand]
      exact List.mem_cons_of_mem _ hx
    · obtain rfl := Note.expired.inj (List.mem_singleton.mp hx)
      exact hand ▸ List.mem_cons_self ..
  | aborted =>
    refine .same rfl ?_
    rw [Dispatcher.abortNotes]
    split <;> simp
  | truncated => exact .same rfl (by simp)
  | _ => exact .same rfl (by simp)

end Exchange

namespace Audit

variable {s : Audit σ} {a : Act σ} {ns : List Note} {exchange : Exchange σ}
  {callers : List Emission}

/-- What the act of queueing a retry again does to the first one in the hand. -/
theorem requeue_act {r : Retry} {rest : Retries} (hand : s.bus.requeuing = r :: rest) :
    ∃ ns, s.bus.Retried s.exchange.clock r ns (s.act (.move .requeue)).bus ∧
      (s.act (.move .requeue)).history = s.history ++ ns := by
  cases step : s.exchange.step? .requeue with
  | none =>
    rw [Exchange.step?, Exchange.requeue?, Option.map_eq_none_iff] at step
    have none : s.bus.requeuing = [] := Bus.empty_of_requeue? step
    simp [hand] at none
  | some exchange =>
    have next : s.act (.move .requeue) =
        ⟨exchange, s.callers, s.history ++ s.exchange.notes .requeue⟩ := by
      simp only [act, move, step]
    obtain ⟨bus, queued, rfl⟩ := Option.map_eq_some_iff.mp step
    obtain ⟨r', rest', hand', retried⟩ := (Bus.requeues_of_requeue? queued).retried
    obtain ⟨rfl, -⟩ := List.cons.inj (hand.symm.trans hand')
    rw [next]
    exact ⟨_, retried, rfl⟩

/-- An act crowds a retry out, or else the retries after it waited before or follow failures. -/
theorem retries_act (s : Audit σ) (a : Act σ) :
    (∃ r, s.crowdedOut a = some r ∧ r ∈ s.bus.requeuing ∧ (s.act a).history = s.history ∧
      (s.act a).bus.retries = s.bus.retries ++ [r.later s.bus.policy s.exchange.clock]) ∨
    s.crowdedOut a = none ∧ ∀ r ∈ (s.act a).bus.retries, r ∈ s.bus.retries ++ s.bus.requeuing ∨
      .postponed r ∈ (s.act a).history.drop s.history.length := by
  have still (same : (s.act a).bus.retries = s.bus.retries) : ∀ r ∈ (s.act a).bus.retries,
      r ∈ s.bus.retries ++ s.bus.requeuing ∨
        .postponed r ∈ (s.act a).history.drop s.history.length := by
    intro r hr
    rw [same] at hr
    exact .inl (List.mem_append_left _ hr)
  cases a with
  | subscribe name topics deliver =>
    refine .inr ⟨rfl, still ?_⟩
    simp only [act, subscribe]
    split
    · split
      · rename_i ok
        obtain ⟨bus, done, rfl⟩ := Exchange.subscribe_ok ok
        obtain ⟨-, rfl⟩ := Bus.subscribe_ok done
        rfl
      · rfl
    · rfl
  | start | shutdown =>
    refine .inr ⟨rfl, still ?_⟩
    simp only [act]
    split <;> rfl
  | publish e =>
    refine .inr ⟨rfl, still ?_⟩
    simp only [act, publish]
    split
    · rename_i ok
      obtain ⟨-, -, rfl⟩ := Bus.accept_ok ok
      rfl
    · rfl
  | serve i =>
    refine .inr ⟨rfl, still ?_⟩
    simp only [act, serve]
    split
    · rfl
    · split
      · rfl
      · split
        · rfl
        · rename_i step
          exact (Bus.serves_of_emitStep? step).aside.retries
  | touch f => exact .inr ⟨rfl, still rfl⟩
  | move m =>
    by_cases again : m = .requeue
    · subst again
      cases hand : s.bus.requeuing with
      | nil =>
        have none : s.bus.crowdedOut = none := by rw [Bus.crowdedOut, hand]; rfl
        have same : s.act (.move .requeue) = s := by
          have idle : s.exchange.floor.bus.requeuing = [] := hand
          simp only [act, move, Exchange.step?, Exchange.requeue?, Exchange.bus, Bus.requeue?, idle,
            Option.map_none]
        refine .inr ⟨none, fun r hr => .inl ?_⟩
        rw [same] at hr
        exact List.mem_append_left _ hr
      | cons r rest =>
        obtain ⟨ns, retried, history⟩ := requeue_act hand
        generalize (s.act (.move .requeue)).bus = bus at retried ⊢
        cases retried with
        | returned dead room back =>
          refine .inr ⟨room, fun x hx => .inl ?_⟩
          rw [back] at hx
          rcases List.mem_append.mp hx with old | new
          · exact List.mem_append_left _ old
          · obtain rfl := List.mem_singleton.mp new
            exact List.mem_append_right _ (List.mem_cons_self ..)
        | later live crowded back =>
          refine .inl ⟨r, crowded, List.mem_cons_self .., ?_, back⟩
          rw [history, List.append_nil]
        | queued live room gone =>
          exact .inr ⟨room, fun x hx => .inl (List.mem_append_left _ (gone ▸ hx))⟩
    · have none : s.crowdedOut (.move m) = none := by
        cases m <;> first | rfl | exact absurd rfl again
      refine .inr ⟨none, ?_⟩
      cases step : s.exchange.step? m with
      | none => exact still (by simp only [act, move, step])
      | some exchange =>
        have next : s.act (.move m) = ⟨exchange, s.callers, s.history ++ s.exchange.notes m⟩ := by
          simp only [act, move, step]
        rw [next, List.drop_left]
        intro r hr
        exact (Exchange.retries_of_step? step again hr).imp_left (List.mem_append_left _)

/-- A delivery that has a setback in an act has one only, and comes to the retries. -/
theorem setbacksIn_cases (s : Audit σ) (a : Act σ) (k : Parcel) :
    s.setbacksIn a k = [] ∨ ∃ r ∈ (s.act a).bus.retries, r.parcel = k ∧
      (s.setbacksIn a k = [.failed r] ∨ s.setbacksIn a k = [.crowdedOut] ∧
        ∃ r₀ ∈ s.bus.requeuing, r = r₀.later s.bus.policy s.exchange.clock) := by
  rw [setbacksIn]
  rcases s.retries_act a with ⟨r₀, crowded, hr₀, same, retries⟩ | ⟨none, -⟩
  · rw [same, List.drop_length, crowded, Option.filter_some]
    by_cases own : r₀.parcel = k
    · refine .inr ⟨r₀.later s.bus.policy s.exchange.clock, ?_, own, .inr ⟨?_, r₀, hr₀, rfl⟩⟩
      · rw [retries]
        exact List.mem_append_right _ (List.mem_singleton_self _)
      · rw [if_pos (decide_eq_true own)]
        rfl
    · left
      rw [if_neg (by simpa using own)]
      rfl
  · rw [none]
    obtain ⟨ns, exchange, callers, steps, next⟩ := s.steps_act a
    rw [next, List.drop_left, Option.filter_none, Option.toList_none, List.map_nil, List.append_nil]
    by_cases fails : postponements k ns = []
    · exact .inl (by rw [fails, List.map_nil])
    · obtain ⟨r, hr⟩ := List.exists_mem_of_ne_nil _ fails
      obtain ⟨n, hn, is⟩ := List.mem_filterMap.mp hr
      cases n with
      | postponed r' =>
        obtain ⟨own, same⟩ := Option.ite_none_right_eq_some.mp is
        obtain rfl := Option.some.inj same
        obtain ⟨here, one, -⟩ := steps.rounds.postponed r' hn
        refine .inr ⟨r', here, own, .inl ?_⟩
        simp [one, postponements, Note.postponement, own]
      | _ => simp [Note.postponement] at is

/-! ## Runs -/

/-- What is said of the deliveries that wait, or were given up while they waited, if the deliveries had
these setbacks. -/
structure Told (s : Audit σ) (told : Parcel → List Setback) : Prop where
  failures : ∀ k, (told k).filterMap Setback.retry? = postponements k s.history
  pending : ∀ r ∈ s.bus.retries ++ s.bus.requeuing, r.Keeps (told r.parcel)
  expiring : ∀ l ∈ s.bus.expiring, l.Repeats (told l.parcel)
  expired : ∀ l, .expired l ∈ s.history → l.Repeats (told l.parcel)

theorem told_fresh (p : Policy) (world : σ) : (fresh p world).Told fun _ => [] where
  failures _ := rfl
  pending _ hr := nomatch hr
  expiring _ hl := nomatch hl
  expired _ hl := nomatch hl

theorem Steps.expires (steps : s.Steps ns exchange callers) : s.exchange.Expires ns exchange := by
  cases steps with
  | subscribed running ok =>
    obtain ⟨bus, done, rfl⟩ := Exchange.subscribe_ok ok
    obtain ⟨-, rfl⟩ := Bus.subscribe_ok done
    exact .same rfl (by simp)
  | published ok =>
    obtain ⟨-, -, rfl⟩ := Bus.accept_ok ok
    exact .same rfl (by simp)
  | served found step => exact .same step.aside.expiring (by cases step <;> simp)
  | moved step => exact step.expires
  | idle | started | answered | touched | shut => exact .same rfl (by simp)

/-- A pending delivery that has no setback in an act was pending before. -/
theorem pending_before {r : Retry} (hr : r ∈ (s.act a).bus.retries ++ (s.act a).bus.requeuing)
    (none : s.setbacksIn a r.parcel = []) : r ∈ s.bus.retries ++ s.bus.requeuing := by
  obtain ⟨nothing, nobody⟩ := List.append_eq_nil_iff.mp none
  rcases List.mem_append.mp hr with waits | ready
  · rcases s.retries_act a with ⟨r₀, crowded, -, -, retries⟩ | ⟨-, old⟩
    · rw [retries] at waits
      rcases List.mem_append.mp waits with old | new
      · exact List.mem_append_left _ old
      · obtain rfl := List.mem_singleton.mp new
        rw [crowded, Option.filter_some, if_pos (decide_eq_true (by rfl))] at nobody
        simp at nobody
    · refine (old r waits).resolve_right fun note => ?_
      have here : r ∈ postponements r.parcel ((s.act a).history.drop s.history.length) :=
        List.mem_filterMap.mpr ⟨_, note, if_pos rfl⟩
      rw [List.map_eq_nil_iff.mp nothing] at here
      exact absurd here List.not_mem_nil
  · obtain ⟨ns, exchange, callers, steps, next⟩ := s.steps_act a
    rw [next] at ready
    rcases steps.rounds.requeuing r ready with old | ⟨old, -⟩
    · exact List.mem_append_right _ old
    · exact List.mem_append_left _ old

/-- What is pending after an act keeps what was said of its delivery. -/
theorem Told.keeps {told : Parcel → List Setback} (known : s.Told told) {p : Policy}
    (sound : (s.act a).Sound p) (fair : (s.act a).Fair)
    (ready : ∀ r ∈ s.bus.requeuing, r.due ≤ s.exchange.clock) {r : Retry}
    (hr : r ∈ (s.act a).bus.retries ++ (s.act a).bus.requeuing) :
    r.Keeps (told r.parcel ++ s.setbacksIn a r.parcel) := by
  rcases s.setbacksIn_cases a r.parcel with none | ⟨r', hr', same, why⟩
  · rw [none, List.append_nil]
    exact known.pending r (pending_before hr none)
  · have distinct := (List.nodup_append.mp (sound.nodup_pending fair)).1
    obtain rfl := List.inj_on_of_nodup_map distinct (List.mem_append_left _ hr') hr same
    rcases why with failed | ⟨crowded, r₀, hr₀, rfl⟩
    · rw [failed]
      exact r'.keeps_failed _
    · rw [crowded]
      exact (known.pending r₀ (List.mem_append_right _ hr₀)).later (ready r₀ hr₀)

/-- A delivery that is given up after an act had no setback in it. -/
theorem setbacksIn_of_given_up {p : Policy} (sound : (s.act a).Sound p) (fair : (s.act a).Fair)
    {l : DeadLetter} (given : l ∈ (s.act a).bus.expiring ∨ .expired l ∈ (s.act a).history) :
    s.setbacksIn a l.parcel = [] := by
  rcases s.setbacksIn_cases a l.parcel with none | ⟨r, hr, same, -⟩
  · exact none
  · have apart := (List.nodup_append.mp (sound.nodup_pending fair)).2.2 r.parcel
      (List.mem_map_of_mem (List.mem_append_left _ hr)) l.parcel
    refine absurd same (apart ?_)
    rcases given with hand | past
    · exact List.mem_append_left _ (List.mem_map_of_mem hand)
    · exact List.mem_append_right _ (List.mem_filterMap.mpr ⟨_, past, rfl⟩)

theorem Told.step {told : Parcel → List Setback} (known : s.Told told) {p : Policy}
    (sound : (s.act a).Sound p) (fair : (s.act a).Fair)
    (ready : ∀ r ∈ s.bus.requeuing, r.due ≤ s.exchange.clock) :
    (s.act a).Told fun k => told k ++ s.setbacksIn a k := by
  obtain ⟨ns, exchange, callers, steps, next⟩ := s.steps_act a
  have given {l : DeadLetter} (ends : l ∈ (s.act a).bus.expiring ∨ .expired l ∈ (s.act a).history)
      (repeats : l.Repeats (told l.parcel)) : l.Repeats (told l.parcel ++ s.setbacksIn a l.parcel) := by
    rw [setbacksIn_of_given_up sound fair ends, List.append_nil]
    exact repeats
  constructor
  · intro k
    have crowded (o : Option Retry) :
        (o.toList.map fun _ => Setback.crowdedOut).filterMap Setback.retry? = [] := by
      cases o <;> rfl
    have failed (rs : List Retry) : (rs.map Setback.failed).filterMap Setback.retry? = rs := by
      rw [List.filterMap_map]
      exact List.filterMap_some
    rw [List.filterMap_append, setbacksIn, List.filterMap_append, crowded, failed, known.failures,
      List.append_nil, next, List.drop_left]
    exact List.filterMap_append.symm
  · exact fun r hr => known.keeps sound fair ready hr
  · intro l hl
    refine given (.inl hl) ?_
    rw [next] at hl
    rcases steps.expires.expiring l hl with old | ⟨r, hr, rfl⟩
    · exact known.expiring l old
    · refine ⟨r, known.pending r (List.mem_append_left _ hr), ?_⟩
      rw [Bus.staleLetter]
      split
      · exact .inl rfl
      · exact .inr rfl
  · intro l hl
    refine given (.inr hl) ?_
    rw [next] at hl
    rcases List.mem_append.mp hl with old | new
    · exact known.expired l old
    · exact known.expiring l (steps.expires.expired l new)

theorem told_play (policy : Policy) (world : σ) (acts : List (Act σ)) :
    (play policy world acts).Told (setbacks policy world acts) := by
  induction acts using List.reverseRecOn with
  | nil => exact told_fresh policy world
  | append_singleton acts a ih =>
    have sound := sound_play policy world (acts ++ [a])
    have fair := fair_play policy world (acts ++ [a])
    rw [play_concat] at sound fair ⊢
    have known := ih.step sound fair (timely_play policy world acts).ready
    rw [← funext (setbacks_concat policy world acts a)] at known
    exact known

/-- After any schedule a retry whose turn it is to be queued again is queued, goes back unchanged if its
subscriber has no mailbox, or goes back for later and with another error if its mailbox has no room. So a
retry keeps the event, the subscriber, the attempts and the first failure of its delivery, and is due no
earlier than before; its error is that of the last failure only if it has not been crowded out since, and
a letter repeats this error when the retry is given up. -/
theorem kept_but_for_the_error (policy : Policy) (world : σ) (acts : List (Act σ)) :
    let s := play policy world acts
    let told := setbacks policy world acts
    (∀ r rest, s.bus.requeuing = r :: rest →
      ∃ ns, (s.act (.move .requeue)).history = s.history ++ ns ∧
        s.bus.Retried s.exchange.clock r ns (s.act (.move .requeue)).bus ∧
        (r.later policy s.exchange.clock).Continues r) ∧
    (∀ k, (told k).filterMap Setback.retry? = postponements k s.history) ∧
    (∀ r ∈ s.bus.retries ++ s.bus.requeuing, r.Keeps (told r.parcel)) ∧
    ∀ l, .expired l ∈ s.history → l.Repeats (told l.parcel) := by
  intro s told
  have known : s.Told told := told_play policy world acts
  refine ⟨fun r rest hand => ?_, known.failures, known.pending, known.expired⟩
  obtain ⟨ns, retried, history⟩ := requeue_act hand
  have ready := (timely_play policy world acts).ready r (hand ▸ List.mem_cons_self ..)
  exact ⟨ns, history, retried, .later ready⟩

/-- The retry that follows the failed attempt of `failing`. -/
def downRetry : Retry :=
  ⟨0, .plain "t" .null, "down", 1, 3, 0 + 5 + Policy.narrow.backoff 1, 5,
    (Fault.run .busShutDown).message⟩

/-- The retry is due, and there is no room for it. -/
def readied : List (Act Unit) :=
  failing ++ [.move (.wait (Policy.narrow.backoff 1))] ++ [.move (.retryTick 0)]

/-- The retry has found no room, and is left alone for longer than the policy allows. -/
def stranded : List (Act Unit) :=
  readied ++ [.move .requeue] ++ [.move (.wait (Policy.narrow.retryTtl + 1))]

/-- The tick puts the retry into the hand. -/
theorem play_readied : play .narrow () readied =
    { play .narrow () (failing ++ [.move (.wait (Policy.narrow.backoff 1))]) with
      exchange := { (play .narrow () (failing ++ [.move (.wait (Policy.narrow.backoff 1))])).exchange.onBus
        (fun b => { b with retries := [], requeuing := b.requeuing ++ b.retries }) with
          retryTicks := [50] } } := by
  rw [readied, play_concat]
  refine retryTick_all (show Exchange.tick? _ _ _ 0 = some [50] from rfl) fun r hr => ?_
  obtain rfl : r = downRetry := List.mem_singleton.mp hr
  exact Nat.le_refl _

/-- The crowded-out retry waits, and a sweep is due. -/
theorem waits_stranded :
    let s := play .narrow () stranded
    s.bus.retries = [downRetry.later .narrow (0 + 5 + Policy.narrow.backoff 1)] ∧
      s.bus.expiring = [] ∧
      s.exchange.clock = 0 + 5 + Policy.narrow.backoff 1 + (Policy.narrow.retryTtl + 1) ∧
      s.bus.policy = .narrow ∧ s.bus.isLive "down" = true ∧
      s.exchange.sweepTicks = [0] := by
  rw [stranded, play_concat, play_concat, play_readied]
  exact ⟨rfl, rfl, rfl, rfl, rfl, rfl⟩

/-- The retry knows why the attempt failed until it is crowded out, and its letter does not. -/
theorem kept_but_for_the_error_stranded :
    (∃ r, (play .narrow () readied).bus.requeuing = [r] ∧
      r.lastError = (Fault.run .busShutDown).message ∧
      (r.later .narrow (play .narrow () readied).exchange.clock).Continues r) ∧
    ∃ r ∈ (play .narrow () stranded).bus.retries ++ (play .narrow () stranded).bus.requeuing,
      r.Keeps (setbacks .narrow () stranded r.parcel) ∧
    ∃ l, .expired l ∈ (play .narrow () (stranded ++ [.move (.sweepTick 0)] ++ [.move .expire])).history ∧
      l.error = "retry expired (last error: subscriber queue full)" ∧
      l.Repeats (setbacks .narrow () (stranded ++ [.move (.sweepTick 0)] ++ [.move .expire])
        l.parcel) := by
  constructor
  · obtain ⟨returned, -⟩ := kept_but_for_the_error .narrow () readied
    have hand : (play .narrow () readied).bus.requeuing = [downRetry] := by
      rw [play_readied]
      rfl
    obtain ⟨-, -, -, later⟩ := returned downRetry [] hand
    exact ⟨downRetry, hand, rfl, later⟩
  · obtain ⟨retries, nobody, clock, policy, live, ticks⟩ := waits_stranded
    obtain ⟨-, -, keeps, -⟩ := kept_but_for_the_error .narrow () stranded
    obtain ⟨-, -, -, repeats⟩ :=
      kept_but_for_the_error .narrow () (stranded ++ [.move (.sweepTick 0)] ++ [.move .expire])
    generalize was : downRetry.later .narrow (0 + 5 + Policy.narrow.backoff 1) = r at retries
    have stale : (play .narrow () stranded).isStale r = true := by
      rw [isStale, clock, policy, ← was]
      refine Bool.or_eq_true_iff.mpr (.inl (decide_eq_true ?_))
      change 5 + Policy.narrow.retryTtl < _
      omega
    obtain ⟨exchange, tick⟩ : ∃ exchange, (play .narrow () stranded).exchange.sweepTick? 0 =
        some exchange := by
      rw [Exchange.sweepTick?, Exchange.tick?, ticks]
      exact ⟨_, rfl⟩
    have sweeps := (sweeps_of_tick tick).recorded
    rw [retries, nobody, List.filter_cons_of_pos stale, List.filter_nil] at sweeps
    obtain ⟨history, -⟩ := sweeps _ rfl
    have given : Note.expired ((play .narrow () stranded).bus.staleLetter r) ∈
        (play .narrow () (stranded ++ [.move (.sweepTick 0)] ++ [.move .expire])).history := by
      rw [play_concat, play_concat]
      refine history ▸ ?_
      exact List.mem_append_right _ (List.mem_singleton_self _)
    have here : r ∈ (play .narrow () stranded).bus.retries := retries ▸ List.mem_singleton_self _
    refine ⟨r, List.mem_append_left _ here, keeps r (List.mem_append_left _ here), _, given, ?_,
      repeats _ given⟩
    rw [Bus.staleLetter, ← was]
    change (Retry.giveUp (downRetry.later _ _)
      (if (play .narrow () stranded).bus.isLive "down" then _ else _)).error = _
    rw [live]
    rfl

end Audit

end Pipeworks
