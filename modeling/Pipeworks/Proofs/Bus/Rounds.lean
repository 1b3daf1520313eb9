import Pipeworks.Proofs.Bus.Clock
import Pipeworks.Proofs.Bus.Shutdown

/-!
# The rounds of a delivery

A delivery that fails comes to the retries, from there into the hand of a tick, and from there back into
the mailbox of its subscriber, or to the retries if there is no mailbox or no room. `Exchange.Rounds`
says of a step where each delivery and each retry comes from.
-/

namespace Pipeworks

variable {σ : Type}

/-! ## What is on its way -/

/-- A delivery is in the mailbox of a subscriber. -/
def Bus.Holds (b : Bus) (name : String) (d : Delivery) : Prop :=
  ∃ m, (name, m) ∈ b.mailboxes ∧ d ∈ m.items

/-- A dispatcher handles a delivery. -/
def Dispatcher.Handles (x : Dispatcher σ) (d : Delivery) : Prop :=
  ∃ a, x.post = .handling d a

/-- A delivery is in the mailbox of a subscriber or with it. -/
def Exchange.Carries (s : Exchange σ) (name : String) (d : Delivery) : Prop :=
  s.bus.Holds name d ∨ ∃ x ∈ s.dispatchers, x.name = name ∧ x.Handles d

/-- The delivery of a retry for its next attempt. -/
def Retry.again (r : Retry) : Delivery := ⟨r.serial, r.event, r.attempts + 1, some r.firstFailure⟩

/-- A retry whose mailbox had no room. -/
def Retry.later (r : Retry) (p : Policy) (now : Nat) : Retry :=
  { r with maxAttempts := p.maxAttempts, due := now + p.retryInterval, lastError := Bus.queueFull }

/-- The first attempt at a delivery is put into a mailbox. -/
def IsFirst (ns : List Note) (name : String) (d : Delivery) : Prop :=
  .queued name d ∈ ns ∧ d.attempt = 1 ∧ d.firstFailure = none

/-- The retry that follows a failed delivery. -/
theorem Policy.retry_of_afterFailure {p : Policy} {now : Nat} {name error : String} {d : Delivery}
    {r : Retry} (h : p.afterFailure now name d error = .retry r) :
    r.parcel = d.parcel name ∧ r.attempts = d.attempt ∧ r.firstFailure = d.firstFailure.getD now ∧
      r.due = now + p.backoff d.attempt := by
  rw [afterFailure] at h
  split at h
  · simp at h
  · obtain rfl := Aftermath.retry.inj h
    exact ⟨rfl, rfl, rfl, rfl⟩

namespace Bus

variable {b b' : Bus} {name other : String} {d : Delivery} {ns : List Note} {e e' : Emission}

theorem holds_same (boxes : b'.mailboxes = b.mailboxes) (holds : b'.Holds name d) :
    b.Holds name d := by
  rw [Holds, boxes] at holds
  exact holds

theorem holds_changeMailbox {f : Mailbox → Mailbox} (holds : b'.Holds name d)
    (boxes : b'.mailboxes = (b.changeMailbox other f).mailboxes) :
    ∃ m, (name, m) ∈ b.mailboxes ∧ (d ∈ m.items ∨ name = other ∧ d ∈ (f m).items) := by
  obtain ⟨m', here, inside⟩ := holds
  rw [boxes] at here
  obtain ⟨⟨known, m⟩, hm, same⟩ := List.mem_map.mp here
  by_cases own : known = other
  · rw [if_pos own] at same
    obtain ⟨rfl, rfl⟩ := Prod.mk.inj same
    exact ⟨m, hm, .inr ⟨own, inside⟩⟩
  · rw [if_neg own] at same
    obtain ⟨rfl, rfl⟩ := Prod.mk.inj same
    exact ⟨m, hm, .inl inside⟩

/-- A change that puts nothing into a mailbox. -/
theorem holds_fewer {f : Mailbox → Mailbox} (holds : b'.Holds name d)
    (boxes : b'.mailboxes = (b.changeMailbox other f).mailboxes)
    (fewer : ∀ m, ∀ x ∈ (f m).items, x ∈ m.items) : b.Holds name d := by
  obtain ⟨m, hm, inside⟩ := holds_changeMailbox holds boxes
  exact ⟨m, hm, inside.elim id fun own => fewer m d own.2⟩

/-- A change that puts one delivery into a mailbox. -/
theorem holds_more {f : Mailbox → Mailbox} {x : Delivery} (holds : b'.Holds name d)
    (boxes : b'.mailboxes = (b.changeMailbox other f).mailboxes)
    (more : ∀ m, (f m).items = m.items ++ [x]) : b.Holds name d ∨ name = other ∧ d = x := by
  obtain ⟨m, hm, inside⟩ := holds_changeMailbox holds boxes
  rcases inside with inside | ⟨own, inside⟩
  · exact .inl ⟨m, hm, inside⟩
  · rw [more] at inside
    rcases List.mem_append.mp inside with old | new
    · exact .inl ⟨m, hm, old⟩
    · exact .inr ⟨own, List.mem_singleton.mp new⟩

theorem Serves.holds (serves : b.Serves e ns e' b') (holds : b'.Holds name d) :
    b.Holds name d ∨ IsFirst ns name d := by
  cases serves with
  | skipped | missed => exact .inl holds
  | found =>
    exact .inl (holds_fewer (f := fun m => { m with senders := m.senders + 1 }) holds rfl
      fun _ _ inside => inside)
  | refused =>
    exact .inl (holds_fewer (f := fun m => { m with senders := m.senders - 1 }) holds rfl
      fun _ _ inside => inside)
  | put other m =>
    refine (holds_more holds rfl fun _ => rfl).imp_right ?_
    rintro ⟨rfl, rfl⟩
    exact ⟨List.mem_singleton_self _, rfl, rfl⟩

theorem Requeues.holds {now : Nat} (requeues : b.Requeues now ns b') (holds : b'.Holds name d) :
    b.Holds name d ∨ ∃ r ∈ b.requeuing, name = r.subscriber ∧ d = r.again := by
  cases requeues with
  | returned | full => exact .inl holds
  | put r rest m hand =>
    refine (holds_more (f := fun m => { m with items := m.items ++ [r.again] }) holds rfl
      fun _ => rfl).imp_right ?_
    rintro ⟨rfl, rfl⟩
    exact ⟨r, hand ▸ List.mem_cons_self .., rfl, rfl⟩

theorem holds_take? {x : Delivery} (taken : b.take? other = some (x, b')) :
    b.Holds other x ∧ ∀ name d, b'.Holds name d → b.Holds name d := by
  obtain ⟨m, rest, known, items, rfl⟩ := take?_eq_some taken
  obtain ⟨before, after, split, -⟩ := List.lookup_eq_some_iff.mp known
  refine ⟨⟨m, by simp [split], items ▸ List.mem_cons_self ..⟩, fun name d holds => ?_⟩
  exact holds_fewer (f := fun m => { m with items := m.items.tail }) holds rfl
    fun _ _ inside => List.mem_of_mem_tail inside

theorem holds_desert (holds : (b.desert other).Holds name d) : b.Holds name d :=
  holds_fewer holds rfl fun _ _ inside => absurd inside List.not_mem_nil

theorem mem_retries_fail {now : Nat} {x : Delivery} {e : Fault} {r : Retry} :
    r ∈ (b.fail now name x e).retries ↔
      r ∈ b.retries ∨ b.policy.afterFailure now name x e.message = .retry r := by
  rw [fail]
  cases b.policy.afterFailure now name x e.message with
  | deadLetter l => simp [settle, bury]
  | retry r' => simp [settle, eq_comm]

theorem failureNote_eq {now : Nat} {x : Delivery} {e : Fault} {r : Retry} :
    b.failureNote now name x e = .postponed r ↔
      b.policy.afterFailure now name x e.message = .retry r := by
  rw [failureNote]
  cases b.policy.afterFailure now name x e.message <;> simp

theorem holds_close (holds : b.close.Holds name d) : b.Holds name d := by
  obtain ⟨m', here, inside⟩ := holds
  obtain ⟨⟨known, m⟩, hm, same⟩ := List.mem_map.mp here
  obtain ⟨rfl, rfl⟩ := Prod.mk.inj same
  exact ⟨m, hm, inside⟩

end Bus

/-! ## Steps -/

theorem Activity.Steps.holds {f f' : Floor σ} {a : Activity σ} {ns : List Note}
    {stride : Stride σ} (steps : Activity.Steps f a ns stride f') {name : String} {d : Delivery}
    (holds : f'.bus.Holds name d) : f.bus.Holds name d ∨ IsFirst ns name d := by
  cases steps with
  | quiet same => exact .inl (Bus.holds_same same.mailboxes holds)
  | accepted ok =>
    obtain ⟨-, -, rfl⟩ := Bus.accept_ok ok
    exact .inl holds
  | answered => exact .inl holds
  | served step => exact step.holds holds

/-- A program fails no delivery before it ends. -/
theorem Activity.Steps.not_postponed {f f' : Floor σ} {a : Activity σ} {ns : List Note}
    {stride : Stride σ} (steps : Activity.Steps f a ns stride f') (r : Retry) : .postponed r ∉ ns := by
  cases steps with
  | quiet => exact List.not_mem_nil
  | accepted | answered => simp
  | served step => cases step <;> simp

/-- What a step of a dispatcher does to the deliveries and to the retries. -/
structure Dispatcher.Rounds (d : Dispatcher σ) (f : Floor σ) (ns : List Note) (d' : Dispatcher σ)
    (f' : Floor σ) : Prop where
  name : d'.name = d.name
  holds : ∀ name x, f'.bus.Holds name x → f.bus.Holds name x ∨ IsFirst ns name x
  handles : ∀ x, d'.Handles x → d.Handles x ∨ f.bus.Holds d.name x
  retries : ∀ r ∈ f'.bus.retries, r ∈ f.bus.retries ∨ .postponed r ∈ ns
  postponed : ∀ r, .postponed r ∈ ns → r ∈ f'.bus.retries ∧ ns = [.postponed r] ∧
    ∃ x error, d.Handles x ∧ f.bus.policy.afterFailure f'.clock d.name x error = .retry r

theorem Dispatcher.Steps.rounds {f f' : Floor σ} {d d' : Dispatcher σ} {ns : List Note}
    (steps : d.Steps f ns d' f') : d.Rounds f ns d' f' := by
  have off {post : Post σ} (other : ∀ x a, post ≠ .handling x a) (x : Delivery) :
      ¬ Dispatcher.Handles { d with post } x := by
    rintro ⟨a, is⟩
    exact other x a is
  cases steps with
  | @took x bus idle taken =>
    obtain ⟨here, others⟩ := Bus.holds_take? taken
    have same : bus.retries = f.bus.retries := by
      obtain ⟨-, -, -, -, rfl⟩ := Bus.take?_eq_some taken
      rfl
    refine ⟨rfl, fun name x holds => .inl (others name x holds), ?_, fun r hr => .inl (same ▸ hr),
      by simp⟩
    rintro y ⟨a, is⟩
    obtain ⟨rfl, -⟩ := Post.handling.inj is
    exact .inr here
  | retired idle =>
    exact ⟨rfl, fun _ _ holds => .inl (Bus.holds_desert holds), fun x on => absurd on (off (by simp) x),
      fun r hr => .inl hr, by simp⟩
  | @worked x a ns a' f' post step =>
    refine ⟨rfl, fun _ _ => step.holds, ?_, fun r hr => .inl (step.aside.retries ▸ hr),
      fun r told => absurd told (step.not_postponed r)⟩
    rintro y ⟨b, is⟩
    obtain ⟨rfl, -⟩ := Post.handling.inj is
    exact .inl ⟨a, post⟩
  | succeeded post step =>
    exact ⟨rfl, fun _ _ holds => .inl (Bus.holds_same step.ended.mailboxes holds),
      fun x on => absurd on (off (by simp) x), fun r hr => .inl (step.ended.retries ▸ hr), by simp⟩
  | @failed x a ns e f' post step =>
    have same := step.ended
    have boxes : (f'.bus.fail f'.clock d.name x e).mailboxes = f.bus.mailboxes := by
      rw [Bus.fail]
      split <;> exact same.mailboxes
    have handled : d.Handles x := ⟨a, post⟩
    refine ⟨rfl, fun _ _ holds => .inl (Bus.holds_same boxes holds),
      fun x on => absurd on (off (by simp) x), ?_, ?_⟩
    · intro r hr
      rcases Bus.mem_retries_fail.mp hr with old | new
      · exact .inl (same.retries ▸ old)
      · exact .inr (List.mem_singleton.mpr (Bus.failureNote_eq.mpr new).symm)
    · intro r told
      have note := (List.mem_singleton.mp told).symm
      have after := Bus.failureNote_eq.mp note
      refine ⟨Bus.mem_retries_fail.mpr (.inr after), congrArg (fun n => [n]) note, x, e.message,
        handled, ?_⟩
      rw [← same.policy]
      exact after
  | crashed post step =>
    exact ⟨rfl, fun _ _ holds => .inl (Bus.holds_same step.ended.mailboxes (Bus.holds_desert holds)),
      fun x on => absurd on (off (by simp) x), fun r hr => .inl (step.ended.retries ▸ hr), by simp⟩

/-- What a step does to the deliveries on their way and to the retries. -/
structure Exchange.Rounds (s : Exchange σ) (ns : List Note) (s' : Exchange σ) : Prop where
  carried : ∀ name d, s'.Carries name d → s.Carries name d ∨ IsFirst ns name d ∨
    ∃ r ∈ s.bus.requeuing, name = r.subscriber ∧ d = r.again
  retries : ∀ r ∈ s'.bus.retries, r ∈ s.bus.retries ++ s.bus.requeuing ∨
    (∃ r₀ ∈ s.bus.requeuing, r = r₀.later s.bus.policy s.clock) ∨ .postponed r ∈ ns
  requeuing : ∀ r ∈ s'.bus.requeuing, r ∈ s.bus.requeuing ∨ r ∈ s.bus.retries ∧ r.due ≤ s.clock
  postponed : ∀ r, .postponed r ∈ ns → r ∈ s'.bus.retries ∧ ns = [.postponed r] ∧
    ∃ name d error, s.Carries name d ∧
      s.bus.policy.afterFailure s'.clock name d error = .retry r

namespace Exchange

variable {s s' : Exchange σ} {ns : List Note}

/-- A step that leaves the dispatchers and the retries alone. -/
theorem rounds_bus (dispatchers : s'.dispatchers = s.dispatchers)
    (holds : ∀ name d, s'.bus.Holds name d → s.bus.Holds name d ∨ IsFirst ns name d)
    (retries : s'.bus.retries ⊆ s.bus.retries) (requeuing : s'.bus.requeuing = s.bus.requeuing)
    (silent : ∀ r, .postponed r ∉ ns) : s.Rounds ns s' where
  carried name d carries := by
    rcases carries with inside | handled
    · exact (holds name d inside).imp .inl .inl
    · rw [dispatchers] at handled
      exact .inl (.inr handled)
  retries r hr := .inl (List.mem_append_left _ (retries hr))
  requeuing r hr := .inl (requeuing ▸ hr)
  postponed r told := absurd told (silent r)

theorem rounds_dispatcher {i : Nat} {d d' : Dispatcher σ} {f' : Floor σ}
    (found : s.dispatchers[i]? = some d) (rounds : d.Rounds s.floor ns d' f')
    (requeuing : f'.bus.requeuing = s.bus.requeuing) :
    s.Rounds ns { s with floor := f', dispatchers := s.dispatchers.set i d' } := by
  have here := List.mem_of_getElem? found
  constructor
  · rintro name x (inside | ⟨y, hy, is, on⟩)
    · exact (rounds.holds name x inside).imp .inl .inl
    · rcases List.mem_or_eq_of_mem_set hy with old | rfl
      · exact .inl (.inr ⟨y, old, is, on⟩)
      · refine .inl ?_
        rw [rounds.name] at is
        rcases rounds.handles x on with same | waited
        · exact .inr ⟨d, here, is, same⟩
        · exact .inl (is ▸ waited)
  · intro r hr
    exact (rounds.retries r hr).imp (List.mem_append_left _) .inr
  · exact fun r hr => .inl (requeuing ▸ hr)
  · intro r told
    obtain ⟨here', one, x, error, on, after⟩ := rounds.postponed r told
    exact ⟨here', one, d.name, x, error, .inr ⟨d, here, rfl, on⟩, after⟩

/-- The first retry in the hand is queued again, or goes back. -/
theorem rounds_requeue {bus : Bus} (step : s.bus.Requeues s.clock ns bus) :
    s.Rounds ns (s.onBus fun _ => bus) := by
  constructor
  · rintro name x (inside | handled)
    · exact (step.holds inside).imp .inl .inr
    · exact .inl (.inr handled)
  · intro r hr
    change r ∈ bus.retries at hr
    cases step with
    | returned r₀ rest hand | full r₀ rest m hand =>
      have first : r₀ ∈ s.bus.requeuing := hand ▸ List.mem_cons_self ..
      rcases List.mem_append.mp hr with old | new
      · exact .inl (List.mem_append_left _ old)
      · obtain rfl := List.mem_singleton.mp new
        first
        | exact .inl (List.mem_append_right _ first)
        | exact .inr (.inl ⟨r₀, first, rfl⟩)
    | put => exact .inl (List.mem_append_left _ hr)
  · intro r hr
    change r ∈ bus.requeuing at hr
    cases step with
    | returned r₀ rest hand | full r₀ rest m hand | put r₀ rest m hand =>
      exact .inl (hand ▸ List.mem_cons_of_mem _ hr)
  · intro r told
    cases step <;> simp at told

/-- A tick takes the retries that are due into the hand. -/
theorem rounds_takeDue (retryTicks : List Nat) :
    s.Rounds [] { s.onBus (·.takeDue s.clock) with retryTicks } := by
  constructor
  · exact fun _ _ carries => .inl carries
  · intro r hr
    change r ∈ (s.bus.retries.takeDue s.clock).2 at hr
    rw [Retries.takeDue, List.partition_eq_filter_filter] at hr
    exact .inl (List.mem_append_left _ (List.mem_of_mem_filter hr))
  · intro r hr
    change r ∈ s.bus.requeuing ++ (s.bus.retries.takeDue s.clock).1 at hr
    rw [Retries.takeDue, List.partition_eq_filter_filter] at hr
    rcases List.mem_append.mp hr with old | due
    · exact .inl old
    · obtain ⟨here, late⟩ := List.mem_filter.mp due
      exact .inr ⟨here, of_decide_eq_true late⟩
  all_goals simp

theorem Steps.rounds (steps : s.Steps ns s') : s.Rounds ns s' := by
  cases steps with
  | dispatched found step => exact rounds_dispatcher found step.rounds step.hands.2.1
  | worked found step | finished found step =>
    exact rounds_bus rfl (fun _ _ => step.holds) (fun _ hr => step.aside.retries ▸ hr)
      step.aside.requeuing step.not_postponed
  | retryTick retryTicks => exact rounds_takeDue retryTicks
  | requeued step => exact rounds_requeue step
  | sweepTick sweepTicks =>
    refine rounds_bus rfl (fun _ _ => .inl) (fun r hr => ?_) rfl (by simp)
    change r ∈ (s.bus.retries.purge _ _ _).2 at hr
    rw [Retries.purge, List.partition_eq_filter_filter] at hr
    exact List.mem_of_mem_filter hr
  | expired => exact rounds_bus rfl (fun _ _ => .inl) (List.Subset.refl _) rfl (by simp)
  | closed =>
    exact rounds_bus rfl (fun _ _ holds => .inl (Bus.holds_close holds)) (List.Subset.refl _) rfl
      (by simp)
  | @aborted d deadline next aborted joining found =>
    constructor
    · rintro name x (inside | ⟨y, hy, is, on⟩)
      · exact .inl (.inl inside)
      · rcases List.mem_or_eq_of_mem_set hy with old | rfl
        · exact .inl (.inr ⟨y, old, is, on⟩)
        · obtain ⟨a, off⟩ := on
          simp at off
    · exact fun r hr => .inl (List.mem_append_left _ hr)
    · exact fun r hr => .inl hr
    all_goals
      rw [Dispatcher.abortNotes]
      split <;> simp
  | truncated =>
    refine rounds_bus rfl (fun _ _ => .inl) (List.nil_subset _) rfl ?_
    simp
  | _ => exact rounds_bus rfl (fun _ _ => .inl) (List.Subset.refl _) rfl (by simp)

end Exchange

theorem Audit.Steps.rounds {s : Audit σ} {ns : List Note} {exchange : Exchange σ}
    {callers : List Emission} (steps : s.Steps ns exchange callers) : s.exchange.Rounds ns exchange := by
  have still {s' : Exchange σ} {ns : List Note} (dispatchers : s'.dispatchers = s.exchange.dispatchers)
      (boxes : s'.bus.mailboxes = s.exchange.bus.mailboxes)
      (retries : s'.bus.retries = s.exchange.bus.retries)
      (requeuing : s'.bus.requeuing = s.exchange.bus.requeuing)
      (silent : ∀ r, .postponed r ∉ ns) : s.exchange.Rounds ns s' :=
    Exchange.rounds_bus dispatchers (fun _ _ holds => .inl (Bus.holds_same boxes holds))
      (fun _ hr => retries ▸ hr) requeuing silent
  cases steps with
  | subscribed running ok =>
    obtain ⟨bus, done, rfl⟩ := Exchange.subscribe_ok ok
    obtain ⟨-, rfl⟩ := Bus.subscribe_ok done
    refine Exchange.rounds_bus rfl ?_ (List.Subset.refl _) rfl (by simp)
    rintro name d ⟨m, here, inside⟩
    rcases List.mem_append.mp here with old | new
    · exact .inl ⟨m, old, inside⟩
    · obtain ⟨-, rfl⟩ := Prod.mk.inj (List.mem_singleton.mp new)
      exact absurd inside List.not_mem_nil
  | started =>
    refine ⟨?_, fun r hr => .inl (List.mem_append_left _ hr), fun r hr => .inl hr, by simp⟩
    rintro name x (inside | ⟨y, hy, is, a, on⟩)
    · exact .inl (.inl inside)
    · rcases List.mem_append.mp hy with old | new
      · exact .inl (.inr ⟨y, old, is, a, on⟩)
      · obtain ⟨_, -, rfl⟩ := List.mem_map.mp new
        simp at on
  | published ok =>
    obtain ⟨-, -, rfl⟩ := Bus.accept_ok ok
    exact still rfl rfl rfl rfl (by simp)
  | answered => exact still rfl rfl rfl rfl (by simp)
  | served found step =>
    exact Exchange.rounds_bus rfl (fun _ _ => step.holds) (fun _ hr => step.aside.retries ▸ hr)
      step.aside.requeuing (by cases step <;> simp)
  | moved step => exact step.rounds
  | idle | touched | shut => exact still rfl rfl rfl rfl (by simp)

end Pipeworks
