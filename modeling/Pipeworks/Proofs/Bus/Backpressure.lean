import Mathlib.Data.Fintype.Card
import Mathlib.Logic.Relation
import Pipeworks.Proofs.Bus.Panics

/-!
# Waiting for room

An emission waits for room in a full mailbox, and a subscriber that publishes an event while it
handles another waits with it. So subscribers wait for each other, by `Exchange.WaitsFor`. A
mailbox stays full as long as its subscriber waits, for nobody else takes from it; so a ring of
subscribers that wait for each other stays as it is until the bus shuts down.
-/

namespace Pipeworks

variable {σ : Type}

/-- The recipients that an emission has not served yet. -/
def Emission.unserved (e : Emission) : List String := e.holding.toList ++ e.left

/-- The standard policy, with room for one delivery in every mailbox. -/
def Policy.narrow : Policy := { Policy.standard with queueCapacity := 1 }

/-! ## Full mailboxes -/

namespace Bus

variable {b b' : Bus} {name other : String} {ns : List Note} {e e' : Emission}

/-- Somebody takes deliveries out of a mailbox, and it has no room. -/
def IsFull (b : Bus) (name : String) : Prop :=
  ∃ items, b.intake name = some (items, true) ∧ b.capacity ≤ items.length

theorem IsFull.keep (full : b.IsFull name) (policy : b'.policy = b.policy)
    (same : b'.intake name = b.intake name) : b'.IsFull name := by
  rw [IsFull, same, capacity, policy]
  exact full

/-- A change of one mailbox changes no other. -/
theorem IsFull.apart (full : b.IsFull name) (other : String) (f : Mailbox → Mailbox)
    (policy : b'.policy = b.policy)
    (boxes : b'.mailboxes = (b.changeMailbox other f).mailboxes) (apart : name ≠ other) :
    b'.IsFull name :=
  full.keep policy ((intake_changeMailbox boxes name).trans (if_neg apart))

theorem mem_names_of_contents (queued : b.contents name ≠ []) : name ∈ b.names := by
  rw [contents] at queued
  cases known : b.mailbox? name with
  | none => simp [known] at queued
  | some m =>
    obtain ⟨before, after, split, -⟩ := List.lookup_eq_some_iff.mp known
    simp [names, split]

theorem contents_of_take? (nothing : b.take? name = none) : b.contents name = [] := by
  rw [take?] at nothing
  rw [contents]
  cases known : b.mailbox? name with
  | none => rfl
  | some m =>
    simp only [known] at nothing
    cases items : m.items with
    | nil => simp [items]
    | cons first rest => simp [items] at nothing

/-- There is something in a full mailbox. -/
theorem IsFull.contents (full : b.IsFull name) : b.contents name ≠ [] := by
  obtain ⟨items, known, crowded⟩ := full
  obtain ⟨m, here, same⟩ := Option.map_eq_some_iff.mp known
  obtain ⟨rfl, -⟩ := Prod.mk.inj same
  rw [Bus.contents, here, Option.map_some, Option.getD_some]
  intro empty
  rw [empty, capacity, List.length_nil] at crowded
  omega

theorem IsFull.mem_names (full : b.IsFull name) : name ∈ b.names :=
  mem_names_of_contents full.contents

/-- Nobody puts anything into a full mailbox. -/
theorem IsFull.not_room (full : b.IsFull name) {m : Mailbox} (known : b.mailbox? name = some m) :
    m.receiving = true ∧ ¬ m.items.length < b.capacity := by
  obtain ⟨items, here, crowded⟩ := full
  rw [intake, known, Option.map_some] at here
  obtain ⟨rfl, receiving⟩ := Prod.mk.inj (Option.some.inj here)
  exact ⟨receiving, Nat.not_lt.mpr crowded⟩

/-- An emission has to wait for room only. -/
theorem holding_of_emitStep? (waits : b.emitStep? e = none) (undone : e.isDone = false) :
    ∃ name, e.holding = some name ∧ b.IsFull name := by
  rw [emitStep?] at waits
  cases holding : e.holding with
  | none =>
    simp only [holding] at waits
    cases left : e.left with
    | nil => simp [Emission.isDone, holding, left] at undone
    | cons first rest =>
      simp only [left] at waits
      split at waits <;> simp at waits
  | some name =>
    simp only [holding] at waits
    cases known : b.mailbox? name with
    | none => simp [known] at waits
    | some m =>
      simp only [known] at waits
      cases receiving : m.receiving with
      | false => simp [receiving] at waits
      | true =>
        by_cases room : m.items.length < b.capacity
        · simp [receiving, room] at waits
        · exact ⟨name, rfl, m.items, by rw [intake, known, Option.map_some, receiving],
            Nat.not_lt.mp room⟩

/-- An emission that holds on to a full mailbox waits. -/
theorem IsFull.not_serves (full : b.IsFull name) (holding : e.holding = some name) :
    ¬ b.Serves e ns e' b' := by
  intro serves
  cases serves with
  | skipped other left free | found other left free => simp [holding] at free
  | missed other here missing =>
    obtain rfl := Option.some.inj (holding.symm.trans here)
    exact notMem_names missing full.mem_names
  | refused other m here known deserted =>
    obtain rfl := Option.some.inj (holding.symm.trans here)
    exact absurd ((full.not_room known).1.symm.trans deserted) (by simp)
  | put other m here known receiving room =>
    obtain rfl := Option.some.inj (holding.symm.trans here)
    exact (full.not_room known).2 room

/-- An emission serves the same event, and has fewer recipients to serve. -/
theorem Serves.unserved (serves : b.Serves e ns e' b') :
    e'.event = e.event ∧ e'.unserved.Sublist e.unserved := by
  cases serves with
  | skipped other left free next => exact ⟨rfl, by simp [Emission.unserved, free, next]⟩
  | found other left free next => exact ⟨rfl, by simp [Emission.unserved, free, next]⟩
  | missed | refused | put => exact ⟨rfl, List.sublist_append_right _ _⟩

/-- An emission changes what is in the mailbox that it holds on to, if that has room, and in no
other. -/
theorem Serves.intake (serves : b.Serves e ns e' b')
    (apart : e.holding ≠ some name ∨ b.IsFull name) : b'.intake name = b.intake name := by
  cases serves with
  | skipped | missed => rfl
  | found =>
    exact intake_touch (f := fun m => { m with senders := m.senders + 1 }) rfl
      (fun _ => ⟨rfl, rfl⟩) name
  | refused =>
    exact intake_touch (f := fun m => { m with senders := m.senders - 1 }) rfl
      (fun _ => ⟨rfl, rfl⟩) name
  | put other m holding known receiving room =>
    refine (intake_changeMailbox rfl name).trans (if_neg ?_)
    rintro rfl
    rcases apart with free | full
    · exact free holding
    · exact (full.not_room known).2 room

theorem Serves.policy (serves : b.Serves e ns e' b') : b'.policy = b.policy := by
  cases serves <;> rfl

theorem Serves.isFull (serves : b.Serves e ns e' b') (full : b.IsFull name) : b'.IsFull name :=
  full.keep serves.policy (serves.intake (.inr full))

theorem Requeues.isFull {now : Nat} (requeues : b.Requeues now ns b') (full : b.IsFull name) :
    b'.IsFull name := by
  cases requeues with
  | returned | full => exact full
  | put r rest m hand known listed receiving room =>
    refine full.apart r.subscriber (fun m => { m with
      items := m.items ++ [⟨r.serial, r.event, r.attempts + 1, some r.firstFailure⟩] }) rfl rfl ?_
    rintro rfl
    exact (full.not_room known).2 room

/-- A new mailbox changes no other. -/
theorem isFull_subscribe (full : b.IsFull name) (policy : b'.policy = b.policy)
    (boxes : b'.mailboxes = b.mailboxes ++ [(other, Mailbox.fresh)]) : b'.IsFull name := by
  refine full.keep policy ?_
  obtain ⟨items, known, -⟩ := full
  obtain ⟨m, here, -⟩ := Option.map_eq_some_iff.mp known
  have found : b'.mailbox? name = b.mailbox? name := by
    rw [mailbox?, boxes, List.lookup_append, ← mailbox?, here, Option.some_or]
  rw [intake, found, intake]

/-- Whoever takes from its own mailbox leaves the others as they are. -/
theorem isFull_take? {d : Delivery} (full : b.IsFull name) (taken : b.take? other = some (d, b'))
    (apart : name ≠ other) : b'.IsFull name := by
  obtain ⟨-, -, -, -, rfl⟩ := take?_eq_some taken
  exact full.apart other _ rfl rfl apart

theorem isFull_desert (full : b.IsFull name) (apart : name ≠ other) :
    (b.desert other).IsFull name :=
  full.apart other _ rfl rfl apart

theorem isFull_fail {now : Nat} {d : Delivery} {fault : Fault} (full : b.IsFull name) :
    (b.fail now other d fault).IsFull name := by
  refine full.keep ?_ (intake_fail ..)
  rw [fail]
  split <;> rfl

theorem Same.isFull (same : b.Same b') (full : b.IsFull name) : b'.IsFull name :=
  full.keep same.policy (by rw [intake, mailbox?, same.mailboxes]; rfl)

end Bus

/-! ## Waiting -/

/-- A subscriber neither begins with a delivery nor loses one. -/
def Unmoved (name : String) (ns : List Note) : Prop :=
  ∀ k ∈ tried ns ++ gone ns, k.recipient ≠ name

theorem unmoved_append {name : String} {ns ms : List Note} :
    Unmoved name (ns ++ ms) ↔ Unmoved name ns ∧ Unmoved name ms := by
  simp only [Unmoved, tried, gone, List.filterMap_append, List.mem_append]
  constructor
  · intro quiet
    exact ⟨fun k hk => quiet k (by tauto), fun k hk => quiet k (by tauto)⟩
  · rintro ⟨first, second⟩ k ((hk | hk) | hk | hk)
    · exact first k (.inl hk)
    · exact second k (.inl hk)
    · exact first k (.inr hk)
    · exact second k (.inr hk)

/-- The mailbox that the emission of a dispatcher holds on to. -/
def Dispatcher.awaited? (d : Dispatcher σ) : Option String :=
  match d.post with
  | .handling _ (.emitting e _) => e.holding
  | _ => none

/-- A subscriber waits for room in the mailbox of another one, or in its own. -/
def Exchange.WaitsFor (s : Exchange σ) (a b : String) : Prop :=
  ∃ d ∈ s.dispatchers, d.name = a ∧ d.awaited? = some b ∧ s.bus.IsFull b

theorem Activity.Steps.isFull {f f' : Floor σ} {a : Activity σ} {ns : List Note}
    {stride : Stride σ} (steps : Activity.Steps f a ns stride f') {name : String}
    (full : f.bus.IsFull name) : f'.bus.IsFull name := by
  cases steps with
  | quiet same => exact same.isFull full
  | accepted ok =>
    obtain ⟨-, -, rfl⟩ := Bus.accept_ok ok
    exact full
  | answered => exact full
  | served step => exact step.isFull full

namespace Dispatcher

variable {f f' : Floor σ} {d d' : Dispatcher σ} {ns : List Note} {name : String}

theorem Steps.isFull (steps : d.Steps f ns d' f') (full : f.bus.IsFull name)
    (apart : name ≠ d.name) : f'.bus.IsFull name := by
  cases steps with
  | took idle taken => exact Bus.isFull_take? full taken apart
  | retired => exact Bus.isFull_desert full apart
  | worked post step => exact step.isFull full
  | succeeded post step => exact (step.isFull full).keep rfl rfl
  | failed post step => exact Bus.isFull_fail (step.isFull full)
  | crashed post step => exact Bus.isFull_desert (step.isFull full) apart

/-- A subscriber makes room in its own full mailbox by beginning with another delivery, or by a
panic. -/
theorem Steps.isFull_own (steps : d.Steps f ns d' f') (full : f.bus.IsFull d.name)
    (unmoved : Unmoved d.name ns) : f'.bus.IsFull d.name := by
  cases steps with
  | took idle taken => exact absurd rfl (unmoved _ (List.mem_cons_self ..))
  | retired idle empty => exact absurd (Bus.contents_of_take? empty) full.contents
  | worked post step => exact step.isFull full
  | succeeded post step => exact (step.isFull full).keep rfl rfl
  | failed post step => exact Bus.isFull_fail (step.isFull full)
  | crashed post step =>
    exact absurd rfl (unmoved _ (List.mem_append_right _ (List.mem_cons_self ..)))

/-- Whoever waits for a full mailbox cannot take a step. -/
theorem not_steps (waits : d.awaited? = some name) (full : f.bus.IsFull name) :
    ¬ d.Steps f ns d' f' := by
  have emitting {x : Delivery} {a : Activity σ} (post : d.post = .handling x a) :
      ∃ e next, a = .emitting e next ∧ e.holding = some name := by
    rw [awaited?, post] at waits
    cases a with
    | emitting e next => exact ⟨e, next, rfl, waits⟩
    | _ => simp at waits
  have still {a : Activity σ} {e : Emission} {next : Except Fault Nat → Work σ}
      {stride : Stride σ} {g : Floor σ} (same : a = .emitting e next)
      (holding : e.holding = some name) : ¬ Activity.Steps f a ns stride g := by
    subst same
    intro step
    cases step with
    | quiet same tasks before => simp [Activity.emission?] at before
    | answered done => simp [Emission.isDone, holding] at done
    | served step => exact full.not_serves holding step
  intro steps
  cases steps with
  | took idle | retired idle => simp [awaited?, idle] at waits
  | worked post step =>
    obtain ⟨e, next, same, holding⟩ := emitting post
    exact still same holding step
  | succeeded post step | failed post step | crashed post step =>
    obtain ⟨e, next, rfl, holding⟩ := emitting post
    cases step with
    | quiet same tasks before => simp [Activity.emission?] at before

end Dispatcher

namespace Exchange

variable {s s' : Exchange σ} {ns : List Note} {x y z : String}

/-- As long as the bus runs, a full mailbox stays so through the steps of everybody but its own
subscriber. -/
theorem Steps.isFull (steps : s.Steps ns s') (running : s'.isRunning) (full : s.bus.IsFull y)
    (own : ∀ d ∈ s.dispatchers, d.name = y → ∀ d' f', d.Steps s.floor ns d' f' → f'.bus.IsFull y) :
    s'.bus.IsFull y := by
  cases steps with
  | @dispatched i d ns d' f' found step =>
    by_cases same : d.name = y
    · exact own d (List.mem_of_getElem? found) same d' f' step
    · exact step.isFull full (Ne.symm same)
  | worked found step => exact step.isFull full
  | finished found step => exact (step.isFull full).keep rfl rfl
  | requeued step => exact step.isFull full
  | closed | joined | aborted | truncated | drained => simp [isRunning, truncate] at running
  | _ => exact full.keep rfl rfl

/-- Where nobody else has the name, a subscriber that waits takes no step. -/
theorem WaitsFor.not_steps (waits : s.WaitsFor y z)
    (distinct : (s.dispatchers.map (·.name)).Nodup) {d d' : Dispatcher σ} {f' : Floor σ}
    (hd : d ∈ s.dispatchers) (name : d.name = y) : ¬ d.Steps s.floor ns d' f' := by
  obtain ⟨own, hown, same, awaited, full⟩ := waits
  obtain rfl := List.inj_on_of_nodup_map distinct hd hown (name.trans same.symm)
  exact Dispatcher.not_steps awaited full

end Exchange

namespace Audit

variable {s : Audit σ} {ns : List Note} {exchange : Exchange σ} {callers : List Emission}
  {x y z : String}

/-- As long as the bus runs, a full mailbox can be found. -/
theorem Sound.isLive_of_isFull {p : Policy} (sound : s.Sound p) (running : s.exchange.isRunning)
    (full : s.bus.IsFull x) : s.bus.isLive x = true := by
  by_contra dead
  exact sound.unknown running (Bool.eq_false_iff.mpr dead) full.mem_names

/-- A mailbox stays full as long as its subscriber waits. -/
theorem Steps.isFull (steps : s.Steps ns exchange callers) (running : exchange.isRunning)
    (distinct : (s.exchange.dispatchers.map (·.name)).Nodup) (full : s.bus.IsFull y)
    (waits : s.exchange.WaitsFor y z) : exchange.bus.IsFull y := by
  cases steps with
  | subscribed before ok =>
    obtain ⟨bus, done, rfl⟩ := Exchange.subscribe_ok ok
    obtain ⟨-, rfl⟩ := Bus.subscribe_ok done
    exact Bus.isFull_subscribe full rfl rfl
  | published ok =>
    obtain ⟨-, -, rfl⟩ := Bus.accept_ok ok
    exact full
  | served found step => exact step.isFull full
  | moved step =>
    exact step.isFull running full fun d hd name _ _ own =>
      absurd own (waits.not_steps distinct hd name)
  | shut => simp [Exchange.isRunning, Exchange.beginShutdown] at running
  | idle | started | answered | touched => exact full

/-- Whoever waits for a subscriber that waits goes on waiting. -/
theorem Steps.waitsFor (steps : s.Steps ns exchange callers) (running : exchange.isRunning)
    (distinct : (s.exchange.dispatchers.map (·.name)).Nodup) (waits : s.exchange.WaitsFor x y)
    (other : s.exchange.WaitsFor y z) : exchange.WaitsFor x y := by
  obtain ⟨d, hd, name, awaited, full⟩ := waits
  refine ⟨d, steps.stays hd (fun ms d' f' => ?_) (.inr running), name, awaited,
    steps.isFull running distinct full other⟩
  exact Dispatcher.not_steps awaited full

/-- A ring of subscribers that wait for each other stays as it is. -/
theorem Steps.ring (steps : s.Steps ns exchange callers) (running : exchange.isRunning)
    (distinct : (s.exchange.dispatchers.map (·.name)).Nodup)
    (ring : Relation.TransGen s.exchange.WaitsFor x x) :
    Relation.TransGen exchange.WaitsFor x x := by
  have onwards {y : String} (way : Relation.TransGen s.exchange.WaitsFor x y)
      (more : ∃ z, s.exchange.WaitsFor y z) : Relation.TransGen exchange.WaitsFor x y := by
    induction way with
    | single first =>
      obtain ⟨z, other⟩ := more
      exact .single (steps.waitsFor running distinct first other)
    | tail _ last ih =>
      obtain ⟨z, other⟩ := more
      exact (ih ⟨_, last⟩).tail (steps.waitsFor running distinct last other)
  refine onwards ring ?_
  obtain ⟨y, first, -⟩ := Relation.TransGen.head'_iff.mp ring
  exact ⟨y, first⟩

/-- As long as the bus runs, a ring of subscribers that wait for each other stays as it is. -/
theorem ring_play (policy : Policy) (world : σ) (acts more : List (Act σ))
    (ring : Relation.TransGen (play policy world acts).exchange.WaitsFor x x) :
    (play policy world (acts ++ more)).exchange.isRunning →
      Relation.TransGen (play policy world (acts ++ more)).exchange.WaitsFor x x := by
  induction more using List.reverseRecOn with
  | nil =>
    rw [List.append_nil]
    exact fun _ => ring
  | append_singleton more a ih =>
    have distinct := nodup_dispatchers policy world (acts ++ more)
    obtain ⟨ns, exchange, callers, steps, next⟩ := (play policy world (acts ++ more)).steps_act a
    rw [← List.append_assoc, play_concat, next]
    exact fun running => steps.ring running distinct (ih (steps.running running))

end Audit

end Pipeworks
