import Pipeworks.Proofs.Bus.History

/-!
# What a step can do

For each kind of step one relation lists everything it can do to the bus, with
the notes it leaves: a step of an emission, of a program, of a dispatcher, and of
the exchange. A program touches the deliveries of a bus only through emissions.
-/

namespace Pipeworks

variable {σ : Type}

/-- Two buses with the same deliveries, subscriptions and counters; their streams
and their work in flight may differ. -/
structure Bus.Same (b b' : Bus) : Prop where
  policy : b'.policy = b.policy
  topics : b'.topics = b.topics
  mailboxes : b'.mailboxes = b.mailboxes
  retries : b'.retries = b.retries
  requeuing : b'.requeuing = b.requeuing
  expiring : b'.expiring = b.expiring
  deadLetters : b'.deadLetters = b.deadLetters
  stats : b'.stats = b.stats
  closed : b'.closed = b.closed

theorem Bus.Same.refl (b : Bus) : b.Same b :=
  ⟨rfl, rfl, rfl, rfl, rfl, rfl, rfl, rfl, rfl⟩

/-! ## Emissions -/

/-- A step of an emission. -/
inductive Bus.Serves (b : Bus) (e : Emission) : List Note → Emission → Bus → Prop where
  | skipped (name : String) (left : List String) (free : e.holding = none)
      (next : e.left = name :: left) (dead : b.isLive name = false) :
      Serves b e [] { e with left, holding := none } b
  | found (name : String) (left : List String) (free : e.holding = none)
      (next : e.left = name :: left) (live : b.isLive name = true) :
      Serves b e [] { e with left, holding := some name }
        { b.changeMailbox name (fun m => { m with senders := m.senders + 1 }) with
          inFlight := b.inFlight + 1 }
  | missed (name : String) (holding : e.holding = some name) (missing : b.mailbox? name = none) :
      Serves b e [] { e with holding := none } { b with inFlight := b.inFlight - 1 }
  | refused (name : String) (m : Mailbox) (holding : e.holding = some name)
      (known : b.mailbox? name = some m) (deserted : m.receiving = false) :
      Serves b e [] { e with holding := none }
        { b.changeMailbox name (fun m => { m with senders := m.senders - 1 }) with
          inFlight := b.inFlight - 1 }
  | put (name : String) (m : Mailbox) (holding : e.holding = some name)
      (known : b.mailbox? name = some m) (receiving : m.receiving = true)
      (room : m.items.length < b.capacity) :
      Serves b e [.queued name ⟨e.serial, e.event, 1, none⟩]
        { e with holding := none, queued := e.queued + 1 }
        (b.changeMailbox name fun m =>
          { m with items := m.items ++ [⟨e.serial, e.event, 1, none⟩], senders := m.senders - 1 })

theorem Bus.serves_of_emitStep? {b b' : Bus} {e e' : Emission}
    (h : b.emitStep? e = some (e', b')) : b.Serves e (b.emitNotes e) e' b' := by
  have notes := Bus.emitNotes.eq_def b e
  rw [h] at notes
  rw [Bus.emitStep?] at h
  cases holding : e.holding with
  | none =>
    rw [notes, holding]
    simp only [holding] at h
    cases left : e.left with
    | nil => simp [left] at h
    | cons name rest =>
      simp only [left] at h
      by_cases live : b.isLive name = true
      · rw [if_pos live] at h
        obtain ⟨rfl, rfl⟩ := Prod.mk.inj (Option.some.inj h)
        exact .found name rest holding left live
      · rw [if_neg live] at h
        obtain ⟨rfl, rfl⟩ := Prod.mk.inj (Option.some.inj h)
        exact .skipped name rest holding left (by simpa using live)
  | some name =>
    rw [notes, holding]
    simp only [holding] at h
    cases known : b.mailbox? name with
    | none =>
      simp only [known] at h
      obtain ⟨rfl, rfl⟩ := Prod.mk.inj (Option.some.inj h)
      simpa using Bus.Serves.missed name holding known
    | some m =>
      simp only [known] at h
      cases receiving : m.receiving with
      | false =>
        simp only [receiving, Bool.not_false, if_true] at h
        obtain ⟨rfl, rfl⟩ := Prod.mk.inj (Option.some.inj h)
        simpa using Bus.Serves.refused name m holding known receiving
      | true =>
        by_cases room : m.items.length < b.capacity
        · simp only [receiving, Bool.not_true, Bool.false_eq_true, if_false, if_pos room] at h
          obtain ⟨rfl, rfl⟩ := Prod.mk.inj (Option.some.inj h)
          simpa using Bus.Serves.put name m holding known receiving room
        · simp [receiving, room] at h

/-- An event that is accepted gets the next number and the subscribers of its topic. -/
theorem Bus.accept_ok {b b' : Bus} {e : Event} {emission : Emission}
    (h : b.accept e = .ok (emission, b')) :
    b.closed = false ∧
    emission = ⟨b.stats.emitted, e, (b.subscribersOf e.topic).filter e.isFor, none, 0⟩ ∧
    b' = { b with stats := { b.stats with emitted := b.stats.emitted + 1 } } := by
  rw [Bus.accept] at h
  split at h
  · simp at h
  · rename_i running
    obtain ⟨rfl, rfl⟩ := Prod.mk.inj (Except.ok.inj h)
    exact ⟨by simpa using running, rfl, rfl⟩

/-! ## Retries -/

/-- Queueing the first retry in the hand again. -/
inductive Bus.Requeues (b : Bus) (now : Nat) : List Note → Bus → Prop where
  | returned (r : Retry) (rest : Retries) (hand : b.requeuing = r :: rest)
      (dead : b.isLive r.subscriber = false) :
      Requeues b now [] { b with requeuing := rest, retries := b.retries ++ [r] }
  | put (r : Retry) (rest : Retries) (m : Mailbox) (hand : b.requeuing = r :: rest)
      (known : b.mailbox? r.subscriber = some m) (listed : m.listed = true)
      (receiving : m.receiving = true) (room : m.items.length < b.capacity) :
      Requeues b now [.requeued r]
        { b.changeMailbox r.subscriber (fun m => { m with
            items := m.items ++ [⟨r.serial, r.event, r.attempts + 1, some r.firstFailure⟩] }) with
          requeuing := rest
          inFlight := b.inFlight + 1
          stats := { b.stats with retried := b.stats.retried + 1 } }
  | full (r : Retry) (rest : Retries) (m : Mailbox) (hand : b.requeuing = r :: rest)
      (known : b.mailbox? r.subscriber = some m) (listed : m.listed = true)
      (crowded : (m.receiving && decide (m.items.length < b.capacity)) = false) :
      Requeues b now [] { b with
        requeuing := rest
        retries := b.retries ++ [{ r with
          maxAttempts := b.policy.maxAttempts
          due := now + b.policy.retryInterval
          lastError := Bus.queueFull }] }

theorem Bus.requeues_of_requeue? {b b' : Bus} {now : Nat} (h : b.requeue? now = some b') :
    b.Requeues now (b.requeueNotes now) b' := by
  have notes := Bus.requeueNotes.eq_def b now
  rw [h] at notes
  rw [Bus.requeue?] at h
  cases hand : b.requeuing with
  | nil => simp [hand] at h
  | cons r rest =>
    rw [notes, hand]
    simp only [hand] at h
    have same : Bus.mailbox? { b with requeuing := rest } r.subscriber =
        b.mailbox? r.subscriber := rfl
    rw [same] at h
    cases known : b.mailbox? r.subscriber with
    | none =>
      simp only [known] at h
      obtain rfl := Option.some.inj h
      simpa using Bus.Requeues.returned r rest hand (by simp [Bus.isLive, known])
    | some m =>
      simp only [known] at h
      cases listed : m.listed with
      | false =>
        simp only [listed, Bool.not_false, if_true] at h
        obtain rfl := Option.some.inj h
        simpa using Bus.Requeues.returned r rest hand (by simp [Bus.isLive, known, listed])
      | true =>
        simp only [listed, Bool.not_true, Bool.false_eq_true, if_false] at h
        have room : Bus.capacity { b with requeuing := rest } = b.capacity := rfl
        rw [room] at h
        cases crowded : m.receiving && decide (m.items.length < b.capacity) with
        | true =>
          rw [if_pos crowded] at h
          obtain rfl := Option.some.inj h
          simp only [Bool.and_eq_true, decide_eq_true_eq] at crowded
          change b.Requeues now (if b.stats.retried < b.stats.retried + 1 then _ else _) _
          rw [if_pos (Nat.lt_succ_self _)]
          exact .put r rest m hand known listed crowded.1 crowded.2
        | false =>
          rw [if_neg (by simp [crowded])] at h
          obtain rfl := Option.some.inj h
          simpa using Bus.Requeues.full r rest m hand known listed crowded

/-! ## Programs -/

/-- The emission that a program is about. -/
def Activity.emission? : Activity σ → Option Emission
  | .emitting e _ => some e
  | _ => none

/-- The emission that a program is about after a step. -/
def Stride.emission? : Stride σ → Option Emission
  | .on a => a.emission?
  | .ended _ => none

/-- A step of a program. -/
inductive Activity.Steps (f : Floor σ) :
    Activity σ → List Note → Stride σ → Floor σ → Prop where
  | quiet {a stride f'} (same : f.bus.Same f'.bus)
      (tasks : f'.tasks = f.tasks ∨ ∃ w, f'.tasks = f.tasks ++ [.running w])
      (before : a.emission? = none) (after : stride.emission? = none)
      (load : f'.bus.inFlight + f.tasks.length = f.bus.inFlight + f'.tasks.length) :
      Steps f a [] stride f'
  | accepted {e next emission bus} (ok : f.bus.accept e = .ok (emission, bus)) :
      Steps f (.running (.emit e next)) [.accepted emission] (.on (.emitting emission next))
        { f with bus }
  | answered {e next} (done : e.isDone = true) :
      Steps f (.emitting e next) [.answered e] (.on (.running (next (.ok e.queued)))) f
  | served {e next ns e' bus} (step : f.bus.Serves e ns e' bus) :
      Steps f (.emitting e next) ns (.on (.emitting e' next)) { f with bus }

theorem Activity.steps_of_workStep? {f f' : Floor σ} {w : Work σ} {stride : Stride σ}
    (h : Activity.workStep? f w = some (stride, f')) :
    Activity.Steps f (.running w) (Activity.notes f.bus (.running w)) stride f' := by
  cases w with
  | emit e next =>
    simp only [Activity.workStep?] at h
    cases ok : f.bus.accept e with
    | error fault =>
      simp only [ok] at h
      obtain ⟨rfl, rfl⟩ := Prod.mk.inj (Option.some.inj h)
      simpa [Activity.notes, ok] using .quiet (.refl _) (.inl rfl) rfl rfl rfl
    | ok r =>
      simp only [ok] at h
      obtain ⟨rfl, rfl⟩ := Prod.mk.inj (Option.some.inj h)
      simpa [Activity.notes, ok] using .accepted ok
  | stall => simp [Activity.workStep?] at h
  | openStream next =>
    simp only [Activity.workStep?] at h
    cases started : f.bus.streams.start f.bus.policy.streamCapacity f.clock <;>
      simp only [started, Activity.onStreams, Activity.onBus] at h <;>
      obtain ⟨rfl, rfl⟩ := Prod.mk.inj (Option.some.inj h) <;>
      exact .quiet ⟨rfl, rfl, rfl, rfl, rfl, rfl, rfl, rfl, rfl⟩ (.inl rfl) rfl rfl rfl
  | write id data isFinal next =>
    simp only [Activity.workStep?] at h
    cases numbered : f.bus.streams.number id data isFinal <;>
      simp only [numbered] at h <;>
      obtain ⟨rfl, rfl⟩ := Prod.mk.inj (Option.some.inj h) <;>
      exact .quiet ⟨rfl, rfl, rfl, rfl, rfl, rfl, rfl, rfl, rfl⟩ (.inl rfl) rfl rfl rfl
  | drain id output collected =>
    simp only [Activity.workStep?] at h
    rcases read : f.bus.streams.read id with ⟨r, streams⟩
    cases r <;> simp only [read, Activity.onStreams, Activity.onBus, reduceCtorEq] at h <;>
      obtain ⟨rfl, rfl⟩ := Prod.mk.inj (Option.some.inj h) <;>
      exact .quiet ⟨rfl, rfl, rfl, rfl, rfl, rfl, rfl, rfl, rfl⟩ (.inl rfl) rfl rfl rfl
  | spawn task next =>
    simp only [Activity.workStep?] at h
    obtain ⟨rfl, rfl⟩ := Prod.mk.inj (Option.some.inj h)
    exact .quiet ⟨rfl, rfl, rfl, rfl, rfl, rfl, rfl, rfl, rfl⟩ (.inr ⟨task, rfl⟩) rfl rfl (by simp; omega)
  | finish | act | pause | interrupt | dropWriter | claim | dropReader =>
    simp only [Activity.workStep?, Activity.onStreams, Activity.onBus] at h
    obtain ⟨rfl, rfl⟩ := Prod.mk.inj (Option.some.inj h)
    exact .quiet ⟨rfl, rfl, rfl, rfl, rfl, rfl, rfl, rfl, rfl⟩ (.inl rfl) rfl rfl rfl

theorem Activity.steps_of_step? {f f' : Floor σ} {a : Activity σ} {stride : Stride σ}
    (h : a.step? f = some (stride, f')) : Activity.Steps f a (a.notes f.bus) stride f' := by
  cases a with
  | running w => exact Activity.steps_of_workStep? h
  | asleep ends w =>
    simp only [Activity.step?] at h
    split at h
    · obtain ⟨rfl, rfl⟩ := Prod.mk.inj (Option.some.inj h)
      exact .quiet (.refl _) (.inl rfl) rfl rfl rfl
    · simp at h
  | emitting e next =>
    simp only [Activity.step?] at h
    by_cases done : e.isDone = true
    · rw [if_pos done] at h
      obtain ⟨rfl, rfl⟩ := Prod.mk.inj (Option.some.inj h)
      simpa [Activity.notes, done] using .answered done
    · rw [if_neg done] at h
      obtain ⟨⟨e', bus⟩, step, h⟩ := Option.map_eq_some_iff.mp h
      obtain ⟨rfl, rfl⟩ := Prod.mk.inj h
      simpa [Activity.notes, done] using .served (Bus.serves_of_emitStep? step)
  | writing chunk next =>
    simp only [Activity.step?] at h
    rcases sent : f.bus.streams.send chunk with ⟨w, streams⟩
    cases w <;> simp only [sent, Activity.onStreams, Activity.onBus, reduceCtorEq] at h <;>
      obtain ⟨rfl, rfl⟩ := Prod.mk.inj (Option.some.inj h) <;>
      exact .quiet ⟨rfl, rfl, rfl, rfl, rfl, rfl, rfl, rfl, rfl⟩ (.inl rfl) rfl rfl rfl

/-! ## Dispatchers -/

/-- What is taken out of a mailbox was its first delivery. -/
theorem Bus.take?_eq_some {b b' : Bus} {name : String} {d : Delivery}
    (taken : b.take? name = some (d, b')) :
    ∃ m rest, b.mailbox? name = some m ∧ m.items = d :: rest ∧
      b' = b.changeMailbox name fun m => { m with items := m.items.tail } := by
  rw [take?] at taken
  cases known : b.mailbox? name with
  | none => simp [known] at taken
  | some m =>
    simp only [known] at taken
    cases items : m.items with
    | nil => simp [items] at taken
    | cons first rest =>
      simp only [items] at taken
      obtain ⟨rfl, rfl⟩ := Prod.mk.inj (Option.some.inj taken)
      exact ⟨m, rest, rfl, items, rfl⟩

/-- A step of a dispatcher. -/
inductive Dispatcher.Steps (f : Floor σ) (d : Dispatcher σ) :
    List Note → Dispatcher σ → Floor σ → Prop where
  | took {x bus} (idle : d.post = .idle) (taken : f.bus.take? d.name = some (x, bus)) :
      Steps f d [.begun d.name x]
        { d with post := .handling x (.running (d.deliver x.event)) } { f with bus }
  | retired (idle : d.post = .idle) (empty : f.bus.take? d.name = none)
      (exhausted : f.bus.isExhausted d.name = true) :
      Steps f d [] { d with post := .over } { f with bus := f.bus.desert d.name }
  | worked {x a ns a' f'} (post : d.post = .handling x a)
      (step : Activity.Steps f a ns (.on a') f') :
      Steps f d ns { d with post := .handling x a' } f'
  | succeeded {x a ns f'} (post : d.post = .handling x a)
      (step : Activity.Steps f a ns (.ended (.ok ())) f') :
      Steps f d [.delivered d.name x] { d with post := .idle } { f' with bus := f'.bus.succeed }
  | failed {x a ns e f'} (post : d.post = .handling x a)
      (step : Activity.Steps f a ns (.ended (.failed e)) f') :
      Steps f d [f'.bus.failureNote f'.clock d.name x e] { d with post := .idle }
        { f' with bus := f'.bus.fail f'.clock d.name x e }
  | crashed {x a ns text f'} (post : d.post = .handling x a)
      (step : Activity.Steps f a ns (.ended (.panicked text)) f') :
      Steps f d (.lost d.name x :: (f'.bus.contents d.name).map (.dropped d.name))
        { d with post := .crashed } { f' with bus := f'.bus.desert d.name }

theorem Dispatcher.steps_of_step? {f f' : Floor σ} {d d' : Dispatcher σ}
    (h : d.step? f = some (d', f')) : d.Steps f (d.notes f) d' f' := by
  rw [Dispatcher.step?] at h
  cases post : d.post with
  | idle =>
    simp only [post] at h
    cases taken : f.bus.take? d.name with
    | some r =>
      obtain ⟨x, bus⟩ := r
      simp only [taken] at h
      obtain ⟨rfl, rfl⟩ := Prod.mk.inj (Option.some.inj h)
      simpa [Dispatcher.notes, post, taken] using Dispatcher.Steps.took post taken
    | none =>
      simp only [taken] at h
      split at h
      · rename_i exhausted
        obtain ⟨rfl, rfl⟩ := Prod.mk.inj (Option.some.inj h)
        simpa [Dispatcher.notes, post, taken] using Dispatcher.Steps.retired post taken exhausted
      · simp at h
  | handling x a =>
    simp only [post] at h
    cases step : a.step? f with
    | none => simp [step] at h
    | some r =>
      obtain ⟨stride, f₁⟩ := r
      have steps := Activity.steps_of_step? step
      cases stride with
      | on a' =>
        simp only [step] at h
        obtain ⟨rfl, rfl⟩ := Prod.mk.inj (Option.some.inj h)
        simpa [Dispatcher.notes, post, step] using Dispatcher.Steps.worked post steps
      | ended o =>
        cases o with
        | ok =>
          simp only [step] at h
          obtain ⟨rfl, rfl⟩ := Prod.mk.inj (Option.some.inj h)
          simpa [Dispatcher.notes, post, step] using Dispatcher.Steps.succeeded post steps
        | failed e =>
          simp only [step] at h
          obtain ⟨rfl, rfl⟩ := Prod.mk.inj (Option.some.inj h)
          simpa [Dispatcher.notes, post, step] using Dispatcher.Steps.failed post steps
        | panicked text =>
          simp only [step] at h
          obtain ⟨rfl, rfl⟩ := Prod.mk.inj (Option.some.inj h)
          simpa [Dispatcher.notes, post, step] using Dispatcher.Steps.crashed post steps
  | _ => simp [post] at h

/-! ## The exchange -/

/-- A step of the exchange. -/
inductive Exchange.Steps (s : Exchange σ) : List Note → Exchange σ → Prop where
  | dispatched {i d ns d' f'} (found : s.dispatchers[i]? = some d)
      (step : Dispatcher.Steps s.floor d ns d' f') :
      Steps s ns { s with floor := f', dispatchers := s.dispatchers.set i d' }
  | worked {i a ns a' f'} (found : s.floor.tasks[i]? = some a)
      (step : Activity.Steps s.floor a ns (.on a') f') :
      Steps s ns { s with floor := { f' with tasks := f'.tasks.set i a' } }
  | finished {i a ns o f'} (found : s.floor.tasks[i]? = some a)
      (step : Activity.Steps s.floor a ns (.ended o) f') :
      Steps s ns
        { s with floor := { f' with tasks := f'.tasks.eraseIdx i, bus := f'.bus.settle } }
  | retryTick (retryTicks : List Nat) (ticking : s.retryTicks ≠ []) :
      Steps s [] { s.onBus (·.takeDue s.clock) with retryTicks }
  | requeued {ns bus} (step : s.bus.Requeues s.clock ns bus) : Steps s ns (s.onBus fun _ => bus)
  | sweepTick (sweepTicks : List Nat) (ticking : s.sweepTicks ≠ []) :
      Steps s [] { s.onBus (·.sweep s.clock) with sweepTicks }
  | expired (l : DeadLetter) (rest : List DeadLetter) (hand : s.bus.expiring = l :: rest) :
      Steps s [.expired l] (s.onBus fun b => { b with expiring := rest }.bury l)
  | closed (deadline : Nat) (settling : s.closing = .settling deadline)
      (empty : s.handsEmpty = true)
      (settled : s.bus.inFlight = 0 ∨ deadline ≤ s.clock) :
      Steps s [] { s.onBus Bus.close with closing := .joining deadline 0 0 }
  | joined {d} (deadline next aborted : Nat) (joining : s.closing = .joining deadline next aborted)
      (found : s.dispatchers[next]? = some d) (ended : d.hasEnded = true) :
      Steps s [] { s with closing := .joining deadline (next + 1) aborted }
  | aborted {d} (deadline next aborted : Nat) (joining : s.closing = .joining deadline next aborted)
      (found : s.dispatchers[next]? = some d) (going : d.hasEnded = false)
      (late : deadline ≤ s.clock) :
      Steps s d.abortNotes { s with
        dispatchers := s.dispatchers.set next { d with post := .aborted }
        closing := .joining deadline (next + 1) (aborted + 1) }
  | truncated (deadline next aborted : Nat) (joining : s.closing = .joining deadline next aborted)
      (all : s.dispatchers[next]? = none) :
      Steps s (s.bus.retries.map .discarded) (s.truncate deadline aborted)
  | drained (deadline aborted retries truncated : Nat)
      (draining : s.closing = .draining deadline aborted retries truncated)
      (settled : s.floor.tasks.length = 0 ∨ deadline ≤ s.clock) :
      Steps s [] { s with
        floor := { s.floor with
          bus := { s.floor.bus with inFlight := s.floor.bus.inFlight - s.floor.tasks.length }
          tasks := [] }
        closing := .closed ⟨aborted, s.floor.tasks.length, retries, truncated, s.bus.stats⟩ }
  | waited (ms : Nat) : Steps s [] { s with floor := { s.floor with clock := s.clock + ms } }
  | interrupted : Steps s [] { s with floor := { s.floor with interrupted := true } }

theorem Exchange.steps_of_taskStep? {s s' : Exchange σ} {i : Nat}
    (h : s.taskStep? i = some s') : s.Steps (s.notes (.task i)) s' := by
  obtain ⟨a, found, h⟩ := Option.bind_eq_some_iff.mp h
  obtain ⟨⟨stride, f'⟩, step, rfl⟩ := Option.map_eq_some_iff.mp h
  have steps := Activity.steps_of_step? step
  have notes : s.notes (.task i) = a.notes s.bus := by simp [Exchange.notes, found]
  rw [notes]
  cases stride with
  | on a' => exact .worked found steps
  | ended o => exact .finished found steps

theorem Exchange.steps_of_closingStep? {s s' : Exchange σ}
    (h : s.closingStep? = some s') : s.Steps s.closingNotes s' := by
  rw [Exchange.closingStep?] at h
  rw [Exchange.closingNotes]
  cases closing : s.closing with
  | running => simp [closing] at h
  | closed r => simp [closing] at h
  | settling deadline =>
    simp only [closing] at h
    split at h
    · rename_i settled
      obtain rfl := Option.some.inj h
      simp only [Bool.and_eq_true, Bool.or_eq_true, beq_iff_eq, decide_eq_true_eq] at settled
      exact .closed deadline closing settled.1 settled.2
    · simp at h
  | joining deadline next aborted =>
    simp only [closing] at h ⊢
    cases found : s.dispatchers[next]? with
    | none =>
      simp only [found] at h ⊢
      obtain rfl := Option.some.inj h
      exact .truncated deadline next aborted closing found
    | some d =>
      simp only [found] at h ⊢
      cases ended : d.hasEnded with
      | true =>
        simp only [ended, if_true] at h
        obtain rfl := Option.some.inj h
        exact .joined deadline next aborted closing found ended
      | false =>
        by_cases late : deadline ≤ s.clock
        · simp only [ended, Bool.false_eq_true, if_false, if_pos late] at h
          obtain rfl := Option.some.inj h
          simpa [late] using Exchange.Steps.aborted deadline next aborted closing found ended late
        · simp [ended, late] at h
  | draining deadline aborted retries truncated =>
    simp only [closing, Exchange.abortTasks] at h
    split at h
    · rename_i settled
      obtain rfl := Option.some.inj h
      exact .drained deadline aborted retries truncated closing settled
    · simp at h

/-- Where something ticks, there is a tick. -/
theorem Exchange.ne_nil_of_tick? {clock period i : Nat} {ticks ticks' : List Nat}
    (ticked : tick? clock period ticks i = some ticks') : ticks ≠ [] := by
  rintro rfl
  simp [tick?] at ticked

/-- Every step of the exchange is one of these, with its notes. -/
theorem Exchange.steps_of_step? {s s' : Exchange σ} {m : Move} (h : s.step? m = some s') :
    s.Steps (s.notes m) s' := by
  cases m with
  | dispatcher i =>
    obtain ⟨d, found, h⟩ := Option.bind_eq_some_iff.mp h
    obtain ⟨⟨d', f'⟩, step, rfl⟩ := Option.map_eq_some_iff.mp h
    have notes : s.notes (.dispatcher i) = d.notes s.floor := by simp [Exchange.notes, found]
    rw [notes]
    exact .dispatched found (Dispatcher.steps_of_step? step)
  | task i => exact Exchange.steps_of_taskStep? h
  | retryTick i =>
    obtain ⟨ticks, ticked, rfl⟩ := Option.map_eq_some_iff.mp h
    exact .retryTick ticks (ne_nil_of_tick? ticked)
  | requeue =>
    obtain ⟨bus, step, rfl⟩ := Option.map_eq_some_iff.mp h
    exact .requeued (Bus.requeues_of_requeue? step)
  | sweepTick i =>
    obtain ⟨ticks, ticked, rfl⟩ := Option.map_eq_some_iff.mp h
    exact .sweepTick ticks (ne_nil_of_tick? ticked)
  | expire =>
    obtain ⟨bus, step, rfl⟩ := Option.map_eq_some_iff.mp h
    rw [Bus.expire?] at step
    cases hand : s.bus.expiring with
    | nil => simp [hand] at step
    | cons l rest =>
      simp only [hand] at step
      obtain rfl := Option.some.inj step
      have notes : s.notes .expire = [.expired l] := by simp [Exchange.notes, Bus.expireNotes, hand]
      rw [notes]
      exact .expired l rest hand
  | closing => exact Exchange.steps_of_closingStep? h
  | wait ms =>
    obtain rfl := Option.some.inj h
    exact .waited ms
  | interrupt =>
    obtain rfl := Option.some.inj h
    exact .interrupted

/-! ## Acts -/

/-- A subscription takes a name that nobody finds, and adds an empty mailbox. -/
theorem Bus.subscribe_ok {b b' : Bus} {name : String} {topics : List String}
    (ok : b.subscribe name topics = .ok b') :
    b.isLive name = false ∧
    b' = { b with
      mailboxes := b.mailboxes ++ [(name, Mailbox.fresh)]
      topics := topics.foldl (fun table topic => addToTopic name topic table) b.topics } := by
  rw [Bus.subscribe] at ok
  by_cases live : b.isLive name = true
  · simp [live] at ok
  · rw [if_neg live] at ok
    rw [reserve] at ok
    split at ok
    · obtain rfl := Outcome.ok.inj ok
      exact ⟨by simpa using live, rfl⟩
    · simp [Outcome.map] at ok

theorem Exchange.subscribe_ok {s s' : Exchange σ} {name : String} {topics : List String}
    {deliver : Event → Work σ} (ok : s.subscribe name topics deliver = .ok s') :
    ∃ bus, s.bus.subscribe name topics = .ok bus ∧
      s' = { s with
        floor := { s.floor with bus }
        unstarted := s.unstarted ++ [(name, deliver)] } := by
  rw [Exchange.subscribe] at ok
  cases done : s.bus.subscribe name topics with
  | ok bus =>
    rw [done] at ok
    exact ⟨bus, rfl, (Outcome.ok.inj ok).symm⟩
  | failed e => simp [done, Outcome.map] at ok
  | panicked text => simp [done, Outcome.map] at ok

/-- What happens to an audited bus, with the exchange and the calls under way after it. -/
inductive Audit.Steps (s : Audit σ) : List Note → Exchange σ → List Emission → Prop where
  | idle : Steps s [] s.exchange s.callers
  | subscribed {name topics deliver exchange} (running : s.exchange.isRunning = true)
      (ok : s.exchange.subscribe name topics deliver = .ok exchange) :
      Steps s [] exchange s.callers
  | started (running : s.exchange.isRunning = true) : Steps s [] s.exchange.start s.callers
  | published {e emission bus} (ok : s.bus.accept e = .ok (emission, bus)) :
      Steps s [.accepted emission] (s.exchange.onBus fun _ => bus) (s.callers ++ [emission])
  | answered {i e} (found : s.callers[i]? = some e) (done : e.isDone = true) :
      Steps s [.answered e] s.exchange (s.callers.eraseIdx i)
  | served {i e ns e' bus} (found : s.callers[i]? = some e) (step : s.bus.Serves e ns e' bus) :
      Steps s ns (s.exchange.onBus fun _ => bus) (s.callers.set i e')
  | touched (world : σ) :
      Steps s [] { s.exchange with floor := { s.exchange.floor with world } } s.callers
  | moved {ns exchange} (step : s.exchange.Steps ns exchange) : Steps s ns exchange s.callers
  | shut (running : s.exchange.isRunning = true) :
      Steps s [] s.exchange.beginShutdown s.callers

namespace Audit

/-- Every act is one of these, and what it notes is added to the history. -/
theorem steps_act (s : Audit σ) (a : Act σ) : ∃ ns exchange callers,
    s.Steps ns exchange callers ∧ s.act a = ⟨exchange, callers, s.history ++ ns⟩ := by
  have silent {exchange : Exchange σ} (steps : s.Steps [] exchange s.callers) :
      ∃ ns exchange' callers, s.Steps ns exchange' callers ∧
        { s with exchange } = (⟨exchange', callers, s.history ++ ns⟩ : Audit σ) :=
    ⟨[], exchange, s.callers, steps, by rw [List.append_nil]⟩
  cases a with
  | subscribe name topics deliver =>
    simp only [act, subscribe]
    split
    · rename_i running
      split
      · rename_i exchange ok
        exact silent (.subscribed running ok)
      · exact silent .idle
    · exact silent .idle
  | start =>
    simp only [act]
    split
    · rename_i running
      exact silent (.started running)
    · exact silent .idle
  | publish e =>
    simp only [act, publish]
    split
    · rename_i emission bus ok
      exact ⟨_, _, _, .published ok, rfl⟩
    · exact silent .idle
  | serve i =>
    simp only [act, serve]
    cases found : s.callers[i]? with
    | none => exact silent .idle
    | some e =>
      by_cases done : e.isDone = true
      · simp only [if_pos done]
        exact ⟨_, _, _, .answered found done, rfl⟩
      · simp only [if_neg done]
        cases step : s.bus.emitStep? e with
        | none => exact silent .idle
        | some r => exact ⟨_, _, _, .served found (Bus.serves_of_emitStep? step), rfl⟩
  | touch f => exact silent (.touched _)
  | move m =>
    simp only [act, move]
    cases step : s.exchange.step? m with
    | none => exact silent .idle
    | some exchange => exact ⟨_, _, _, .moved (Exchange.steps_of_step? step), rfl⟩
  | shutdown =>
    simp only [act]
    split
    · rename_i running
      exact silent (.shut running)
    · exact silent .idle

/-- What holds of a bus without subscribers and is kept by every act holds always. -/
theorem play_induction {policy : Policy} {world : σ} {P : Audit σ → Prop}
    (start : P (fresh policy world))
    (step : ∀ s ns exchange callers, P s → s.Steps ns exchange callers →
      P ⟨exchange, callers, s.history ++ ns⟩)
    (acts : List (Act σ)) : P (play policy world acts) := by
  rw [play]
  generalize fresh policy world = s at start ⊢
  induction acts generalizing s with
  | nil => exact start
  | cons a acts ih =>
    obtain ⟨ns, exchange, callers, steps, next⟩ := s.steps_act a
    exact ih (s.act a) (next ▸ step s ns exchange callers start steps)

end Audit

end Pipeworks
