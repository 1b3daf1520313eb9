import Mathlib.Data.Set.Finite.List
import Mathlib.Order.WellFounded
import Pipeworks.Proofs.Bus.Backpressure

/-!
# What brings the dispatchers to a halt

A subscriber that publishes on its own topic may fill its own mailbox and then wait for room in
it: `echo` does, and two subscribers can do it to each other. The main statement is that nothing
but such a ring halts a bus whose subscribers do nothing but publish events. Where something is
queued or handled, a dispatcher can take a step, or there is a ring of subscribers that wait for
each other, or something is queued for a subscriber that has not been started. And where every
subscriber publishes only what goes to subscribers of lower rank, there are no rings.

What carries it is that a dispatcher that cannot step waits for a full mailbox, whose subscriber
has something to do and cannot step either.
-/

namespace Pipeworks

variable {σ : Type}

/-! ## Work that publishes events -/

/-- Work that publishes events of some kind and returns. -/
inductive Work.OnlyEmits (P : Event → Prop) : Work σ → Prop
  | finish (o : Outcome Unit) : OnlyEmits P (.finish o)
  | act (f : σ → σ × Work σ) (next : ∀ world, OnlyEmits P (f world).2) : OnlyEmits P (.act f)
  | emit (e : Event) (w : Except Fault Nat → Work σ) (kind : P e) (next : ∀ r, OnlyEmits P (w r)) :
      OnlyEmits P (.emit e w)

/-- An emission goes to subscribers of its topic only. -/
def Emission.IsRouted (b : Bus) (e : Emission) : Prop :=
  ∀ name ∈ e.unserved, name ∈ b.subscribersOf e.event.topic ∧ e.event.isFor name = true

/-- A program that publishes events of some kind, which go to the subscribers of their topics. -/
def Activity.OnlyEmits (b : Bus) (P : Event → Prop) : Activity σ → Prop
  | .running w => w.OnlyEmits P
  | .emitting e next => P e.event ∧ e.IsRouted b ∧ ∀ r, (next r).OnlyEmits P
  | _ => False

def Post.OnlyEmits (b : Bus) (P : Event → Prop) : Post σ → Prop
  | .handling _ a => a.OnlyEmits b P
  | _ => True

/-- Whoever does work that publishes events of some kind is at such work, if at any. -/
def Exchange.OnlyEmits (s : Exchange σ) : Prop :=
  ∀ d ∈ s.dispatchers, ∀ P, (∀ e, (d.deliver e).OnlyEmits P) → d.post.OnlyEmits s.bus P

theorem Bus.Serves.isRouted {b b' : Bus} {e e' : Emission} {ns : List Note}
    (serves : b.Serves e ns e' b') (routed : e.IsRouted b) :
    e'.event = e.event ∧ e'.IsRouted b := by
  obtain ⟨event, fewer⟩ := serves.unserved
  refine ⟨event, fun name hn => ?_⟩
  rw [event]
  exact routed name (fewer.subset hn)

namespace Activity

variable {f f' : Floor σ} {P : Event → Prop} {a a' : Activity σ}

theorem OnlyEmits.step (only : a.OnlyEmits f.bus P) (h : a.step? f = some (.on a', f')) :
    a'.OnlyEmits f.bus P := by
  cases a with
  | running w =>
    cases only with
    | finish o => simp [step?, workStep?] at h
    | act g next =>
      obtain ⟨same, -⟩ := Prod.mk.inj (Option.some.inj h)
      obtain rfl := Stride.on.inj same
      exact next _
    | emit e w kind next =>
      simp only [step?, workStep?] at h
      split at h
      · obtain ⟨same, -⟩ := Prod.mk.inj (Option.some.inj h)
        obtain rfl := Stride.on.inj same
        exact next _
      · rename_i emission bus ok
        obtain ⟨same, -⟩ := Prod.mk.inj (Option.some.inj h)
        obtain rfl := Stride.on.inj same
        obtain ⟨-, rfl, -⟩ := Bus.accept_ok ok
        refine ⟨kind, fun name hn => ?_, next⟩
        simpa [Emission.unserved] using hn
  | emitting e next =>
    obtain ⟨kind, routed, more⟩ := only
    simp only [step?] at h
    split at h
    · obtain ⟨same, -⟩ := Prod.mk.inj (Option.some.inj h)
      obtain rfl := Stride.on.inj same
      exact more _
    · obtain ⟨⟨e', bus⟩, step, h⟩ := Option.map_eq_some_iff.mp h
      obtain ⟨same, -⟩ := Prod.mk.inj h
      obtain rfl := Stride.on.inj same
      obtain ⟨event, routed⟩ := (Bus.serves_of_emitStep? step).isRouted routed
      exact ⟨event ▸ kind, routed, more⟩
  | asleep | writing => exact only.elim

/-- Such a program waits for room only. -/
theorem OnlyEmits.waits (only : a.OnlyEmits f.bus P) (h : a.step? f = none) :
    ∃ e next name, a = .emitting e next ∧ e.holding = some name ∧ f.bus.IsFull name := by
  cases a with
  | running w =>
    cases only with
    | finish | act => simp [step?, workStep?] at h
    | emit e w kind next =>
      simp only [step?, workStep?] at h
      split at h <;> simp at h
  | emitting e next =>
    simp only [step?] at h
    split at h
    · simp at h
    · rename_i undone
      obtain ⟨name, holding, full⟩ := Bus.holding_of_emitStep? (Option.map_eq_none_iff.mp h)
        (Bool.eq_false_iff.mpr undone)
      exact ⟨e, next, name, rfl, holding, full⟩
  | asleep | writing => exact only.elim

end Activity

/-! ## Runs -/

theorem Bus.subscribersOf_of_topics {b b' : Bus} (topics : b'.topics = b.topics) (topic : String) :
    b.subscribersOf topic ⊆ b'.subscribersOf topic := by
  rw [subscribersOf, subscribersOf, topics]
  exact List.Subset.refl _

theorem Post.OnlyEmits.mono {b b' : Bus} {P : Event → Prop} {post : Post σ}
    (only : post.OnlyEmits b P)
    (more : ∀ topic, b.subscribersOf topic ⊆ b'.subscribersOf topic) : post.OnlyEmits b' P := by
  cases post with
  | handling x a =>
    cases a with
    | emitting e next =>
      obtain ⟨kind, routed, next⟩ := only
      exact ⟨kind, fun name hn => (routed name hn).imp_left (more _ ·), next⟩
    | _ => exact only
  | _ => trivial

theorem Dispatcher.onlyEmits_step? {f f' : Floor σ} {d d' : Dispatcher σ} {P : Event → Prop}
    (only : d.post.OnlyEmits f.bus P) (works : ∀ e, (d.deliver e).OnlyEmits P)
    (h : d.step? f = some (d', f')) : d'.post.OnlyEmits f.bus P := by
  rw [step?] at h
  cases post : d.post with
  | idle =>
    simp only [post] at h
    split at h
    · obtain ⟨rfl, -⟩ := Prod.mk.inj (Option.some.inj h)
      exact works _
    · obtain ⟨-, h⟩ := Option.ite_none_right_eq_some.mp h
      obtain ⟨rfl, -⟩ := Prod.mk.inj (Option.some.inj h)
      trivial
  | handling x a =>
    rw [post] at only
    simp only [post] at h
    split at h
    · simp at h
    · rename_i step
      obtain ⟨rfl, -⟩ := Prod.mk.inj (Option.some.inj h)
      exact Activity.OnlyEmits.step only step
    all_goals
      obtain ⟨rfl, -⟩ := Prod.mk.inj (Option.some.inj h)
      trivial
  | _ => simp [post] at h

theorem Exchange.Turns.onlyEmits {s : Exchange σ} {ds : List (Dispatcher σ)} (turns : s.Turns ds)
    (only : s.OnlyEmits) {d : Dispatcher σ} (hd : d ∈ ds) {P : Event → Prop}
    (works : ∀ e, (d.deliver e).OnlyEmits P) : d.post.OnlyEmits s.bus P := by
  cases turns with
  | still => exact only d hd P works
  | @stepped i own own' f' found step =>
    rcases List.mem_or_eq_of_mem_set hd with old | rfl
    · exact only d old P works
    · rw [(Dispatcher.steps_of_step? step).deliver] at works
      exact Dispatcher.onlyEmits_step? (only own (List.mem_of_getElem? found) P works) works step
  | aborted found going =>
    rcases List.mem_or_eq_of_mem_set hd with old | rfl
    · exact only d old P works
    · trivial

namespace Audit

variable {p : Policy} {s : Audit σ} {ns : List Note} {exchange : Exchange σ}
  {callers : List Emission}

/-- No topic loses a subscriber. -/
theorem Steps.subscribersOf (steps : s.Steps ns exchange callers) (distinct : s.bus.names.Nodup)
    (topic : String) : s.bus.subscribersOf topic ⊆ exchange.bus.subscribersOf topic := by
  cases steps with
  | subscribed running ok =>
    obtain ⟨bus, done, rfl⟩ := Exchange.subscribe_ok ok
    obtain ⟨-, rfl⟩ := Bus.subscribe_ok done
    exact fun name known => Bus.mem_addToTopics.mpr (.inl known)
  | published ok =>
    obtain ⟨-, -, rfl⟩ := Bus.accept_ok ok
    exact List.Subset.refl _
  | served found step => exact Bus.subscribersOf_of_topics (step.books distinct []).topics topic
  | moved step => exact Bus.subscribersOf_of_topics (step.books distinct).topics topic
  | _ => exact List.Subset.refl _

theorem onlyEmits_play (policy : Policy) (world : σ) (acts : List (Act σ)) :
    (play policy world acts).exchange.OnlyEmits := by
  induction acts using List.reverseRecOn with
  | nil => exact fun d hd => absurd hd List.not_mem_nil
  | append_singleton acts a ih =>
    have distinct := (sound_play policy world acts).distinct
    rw [play_concat]
    generalize play policy world acts = s at ih distinct
    obtain ⟨ns, exchange, callers, steps, next⟩ := s.steps_act a
    have more (topic : String) :
        s.bus.subscribersOf topic ⊆ (s.act a).exchange.bus.subscribersOf topic := by
      rw [next]
      exact steps.subscribersOf distinct topic
    intro d hd P works
    refine Post.OnlyEmits.mono ?_ more
    rcases s.turns_act a with turns | started
    · exact turns.onlyEmits ih hd works
    · rw [started] at hd
      rcases List.mem_append.mp hd with old | new
      · exact ih d old P works
      · obtain ⟨x, -, rfl⟩ := List.mem_map.mp new
        trivial

end Audit

/-! ## Rings -/

/-- Where everybody among finitely many waits for another of them, there is a ring. -/
theorem exists_ring {α : Type} {waits : α → α → Prop} {all : Set α} (finite : all.Finite)
    (some : all.Nonempty) (next : ∀ x ∈ all, ∃ y ∈ all, waits x y) :
    ∃ x, Relation.TransGen waits x x := by
  by_contra acyclic
  have : Finite all := finite
  let follows (x y : all) : Prop := Relation.TransGen waits y.1 x.1
  have : IsTrans _ follows := ⟨fun _ _ _ first second => second.trans first⟩
  have : Std.Irrefl follows := ⟨fun x ring => acyclic ⟨x.1, ring⟩⟩
  have : Nonempty all := some.to_subtype
  -- somebody is last, for whom nobody is left to wait for
  obtain ⟨last, -, least⟩ :=
    (Finite.wellFounded_of_trans_of_irrefl follows).has_min Set.univ Set.univ_nonempty
  obtain ⟨y, hy, step⟩ := next last.1 last.2
  exact least ⟨y, hy⟩ trivial (.single step)

/-- Whoever waits for somebody of lower rank stands in no ring. -/
theorem no_ring_of_rank {α : Type} {waits : α → α → Prop} (rank : α → Nat)
    (falls : ∀ x y, waits x y → rank y < rank x) (x : α) : ¬ Relation.TransGen waits x x := by
  have lower {y : α} (way : Relation.TransGen waits x y) : rank y < rank x := by
    induction way with
    | single step => exact falls _ _ step
    | tail _ step ih => exact (falls _ _ step).trans ih
  exact fun ring => Nat.lt_irrefl _ (lower ring)

/-! ## Halts -/

namespace Bus

variable {b : Bus} {name : String}

theorem contents_of_isDeaf (deaf : b.IsDeaf name) : b.contents name = [] := by
  obtain ⟨m, known, empty⟩ := Option.map_eq_some_iff.mp deaf
  rw [contents, known, Option.map_some, Option.getD_some]
  exact congrArg Prod.fst empty

end Bus

namespace Audit

/-- Something is queued for a subscriber, or is being handled. -/
def Busy (s : Audit σ) : Prop :=
  (∃ name, s.bus.contents name ≠ []) ∨ s.exchange.handled ≠ []

/-- Whoever has something to do and cannot take a step waits for room. -/
theorem waits_of_still (policy : Policy) (world : σ) (acts : List (Act σ)) {d : Dispatcher σ}
    (running : (play policy world acts).exchange.isRunning)
    (hd : d ∈ (play policy world acts).exchange.dispatchers) {P : Event → Prop}
    (works : ∀ e, (d.deliver e).OnlyEmits P)
    (still : d.step? (play policy world acts).exchange.floor = none)
    (busy : (play policy world acts).bus.contents d.name ≠ [] ∨ d.inHand ≠ []) :
    ∃ name, (play policy world acts).exchange.WaitsFor d.name name := by
  rw [Dispatcher.step?] at still
  cases post : d.post with
  | idle =>
    have queued := busy.resolve_right (by simp [Dispatcher.inHand, post])
    simp only [post] at still
    split at still
    · simp at still
    · rename_i nothing
      exact absurd (Bus.contents_of_take? nothing) queued
  | handling x a =>
    have only := onlyEmits_play policy world acts d hd P works
    rw [post] at only
    simp only [post] at still
    split at still
    · rename_i waits
      obtain ⟨e, next, name, rfl, holding, full⟩ := Activity.OnlyEmits.waits only waits
      refine ⟨name, d, hd, rfl, ?_, full⟩
      rw [Dispatcher.awaited?, post]
      exact holding
    all_goals simp at still
  | aborted =>
    have opened : (play policy world acts).exchange.closing.isShut = false := by
      rw [Exchange.isRunning_iff.mp running]
      rfl
    have whole := Exchange.isWhole_iff.mp (whole_play policy world acts opened) d hd
    simp [Dispatcher.isAborted, post] at whole
  | «over» | crashed =>
    have queued := busy.resolve_right (by simp [Dispatcher.inHand, post])
    have silent := isSilent_play policy world acts d hd (by rw [Dispatcher.hasEnded, post])
    exact absurd (Bus.contents_of_isDeaf silent) queued

/-- Whoever is waited for gets an event on one of its topics. -/
theorem routed_of_awaited? (policy : Policy) (world : σ) (acts : List (Act σ)) {d : Dispatcher σ}
    (hd : d ∈ (play policy world acts).exchange.dispatchers) {P : Event → Prop}
    (works : ∀ e, (d.deliver e).OnlyEmits P) {name : String} (awaited : d.awaited? = some name) :
    ∃ e, P e ∧ name ∈ (play policy world acts).bus.subscribersOf e.topic ∧ e.isFor name = true := by
  have only := onlyEmits_play policy world acts d hd P works
  rw [Dispatcher.awaited?] at awaited
  split at awaited
  · rename_i e next post
    rw [post] at only
    obtain ⟨kind, routed, -⟩ := only
    exact ⟨e.event, kind, routed name (by simp [Emission.unserved, awaited])⟩
  · simp at awaited

/-- Where no dispatcher can take a step though something is to be done, there is a ring, or
something is queued for a subscriber that has not been started. -/
theorem ring_of_still (policy : Policy) (world : σ) (acts : List (Act σ))
    (running : (play policy world acts).exchange.isRunning)
    (returns : ∀ d ∈ (play policy world acts).exchange.dispatchers,
      ∀ e, (d.deliver e).OnlyEmits fun _ => True)
    (busy : (play policy world acts).Busy)
    (still : ∀ i, (play policy world acts).exchange.step? (.dispatcher i) = none)
    (started : ∀ x ∈ (play policy world acts).exchange.unstarted,
      (play policy world acts).bus.contents x.1 = []) :
    ∃ a, Relation.TransGen (play policy world acts).exchange.WaitsFor a a := by
  have staff := staff_play policy world acts
  have waits {d : Dispatcher σ} (hd : d ∈ (play policy world acts).exchange.dispatchers) :=
    waits_of_still policy world acts running hd (returns d hd)
  generalize play policy world acts = s at *
  have stuck (d : Dispatcher σ) (hd : d ∈ s.exchange.dispatchers) :
      d.step? s.exchange.floor = none := by
    obtain ⟨i, found⟩ := List.getElem?_of_mem hd
    have here := still i
    rw [Exchange.step?, Exchange.dispatcherStep?, found, Option.bind_some,
      Option.map_eq_none_iff] at here
    exact here
  have served {name : String} (queued : s.bus.contents name ≠ []) :
      ∃ d ∈ s.exchange.dispatchers, d.name = name := by
    rcases List.mem_append.mp (staff.mem_iff.mpr (Bus.mem_names_of_contents queued)) with
      unstarted | dispatched
    · obtain ⟨x, hx, rfl⟩ := List.mem_map.mp unstarted
      exact absurd (started x hx) queued
    · exact List.mem_map.mp dispatched
  -- those who have something to do; each of them waits for another one
  let all : Set String := { name | ∃ d ∈ s.exchange.dispatchers, d.name = name ∧
    (s.bus.contents name ≠ [] ∨ d.inHand ≠ []) }
  refine exists_ring (?finite : all.Finite) ?some ?next
  case finite =>
    refine (List.finite_toSet (s.exchange.dispatchers.map (·.name))).subset ?_
    rintro name ⟨d, hd, own, -⟩
    exact List.mem_map.mpr ⟨d, hd, own⟩
  case some =>
    rcases busy with ⟨name, queued⟩ | handled
    · obtain ⟨d, hd, own⟩ := served queued
      exact ⟨name, d, hd, own, .inl queued⟩
    · obtain ⟨x, hx⟩ := List.exists_mem_of_ne_nil _ handled
      obtain ⟨d, hd, hx⟩ := List.mem_flatMap.mp hx
      exact ⟨d.name, d, hd, rfl, .inr (List.ne_nil_of_mem hx)⟩
  case next =>
    rintro x ⟨d, hd, rfl, something⟩
    obtain ⟨name, x, hx, same, awaited, full⟩ := waits hd (stuck d hd) something
    obtain ⟨other, ho, own⟩ := served full.contents
    exact ⟨name, ⟨other, ho, own, .inl full.contents⟩, x, hx, same, awaited, full⟩

/-- What halts the dispatchers of a running bus whose subscribers do nothing but publish events and
return: where something is queued or handled, a dispatcher can take a step, unless there is a ring
of subscribers each of which waits for room in the mailbox of the next, or something is queued for
a subscriber that has not been started. A ring stays as it is as long as the bus runs. There is
none, and a dispatcher can take a step, where everybody is started and publishes only what goes to
subscribers of lower rank. -/
theorem halted_by_rings_only (policy : Policy) (world : σ) (acts : List (Act σ))
    (running : (play policy world acts).exchange.isRunning)
    (returns : ∀ d ∈ (play policy world acts).exchange.dispatchers,
      ∀ e, (d.deliver e).OnlyEmits fun _ => True)
    (busy : (play policy world acts).Busy) :
    let s := play policy world acts
    ((∃ i, (s.exchange.step? (.dispatcher i)).isSome) ∨
      (∃ a, Relation.TransGen s.exchange.WaitsFor a a) ∨
      ∃ x ∈ s.exchange.unstarted, s.bus.contents x.1 ≠ []) ∧
    (∀ a, Relation.TransGen s.exchange.WaitsFor a a → ∀ more,
      (play policy world (acts ++ more)).exchange.isRunning →
        Relation.TransGen (play policy world (acts ++ more)).exchange.WaitsFor a a) ∧
    ∀ rank : String → Nat, s.exchange.unstarted = [] →
      (∀ d ∈ s.exchange.dispatchers, ∀ e, (d.deliver e).OnlyEmits fun e =>
        ∀ name ∈ s.bus.subscribersOf e.topic, e.isFor name = true → rank name < rank d.name) →
      (∀ a, ¬ Relation.TransGen s.exchange.WaitsFor a a) ∧
        ∃ i, (s.exchange.step? (.dispatcher i)).isSome := by
  intro s
  have halted : (∃ i, (s.exchange.step? (.dispatcher i)).isSome) ∨
      (∃ a, Relation.TransGen s.exchange.WaitsFor a a) ∨
      ∃ x ∈ s.exchange.unstarted, s.bus.contents x.1 ≠ [] := by
    by_contra none
    obtain ⟨still, others⟩ := not_or.mp none
    obtain ⟨acyclic, started⟩ := not_or.mp others
    refine acyclic (ring_of_still policy world acts running returns busy ?_ ?_)
    · exact fun i => by simpa using not_exists.mp still i
    · intro x hx
      by_contra queued
      exact started ⟨x, hx, queued⟩
  refine ⟨halted, fun a ring more => ring_play policy world acts more ring, ?_⟩
  intro rank started falls
  have acyclic (a : String) : ¬ Relation.TransGen s.exchange.WaitsFor a a := by
    refine no_ring_of_rank rank ?_ a
    rintro x y ⟨d, hd, rfl, awaited, -⟩
    obtain ⟨e, lower, known, meant⟩ := routed_of_awaited? policy world acts hd (falls d hd) awaited
    exact lower y known meant
  refine ⟨acyclic, halted.resolve_right ?_⟩
  rintro (⟨a, ring⟩ | ⟨x, hx, -⟩)
  · exact acyclic a ring
  · rw [started] at hx
    exact List.not_mem_nil hx

/-- A subscriber that publishes one event on its own topic, and an event that comes while it
handles another one. -/
def echo : List (Act Unit) :=
  [.subscribe "echo" ["t"] fun _ => .emit (.plain "t" .null) fun _ => .done, .start,
    .publish (.plain "t" .null), .serve 0, .serve 0, .move (.dispatcher 0),
    .publish (.plain "t" .null), .serve 1, .serve 1, .move (.dispatcher 0), .move (.dispatcher 0)]

theorem returns_echo : ∀ d ∈ (play .narrow () echo).exchange.dispatchers,
    ∀ e, (d.deliver e).OnlyEmits fun _ => True := by
  intro d hd e
  obtain rfl := List.mem_singleton.mp hd
  exact .emit _ _ trivial fun _ => .finish _

/-- The policy is accepted, the bus runs, the subscriber publishes one event and returns, one
delivery is queued and one is handled, and no dispatcher can take a step. -/
theorem echo_halts :
    Policy.narrow.check = .ok () ∧ (play .narrow () echo).exchange.isRunning ∧
    (∀ d ∈ (play .narrow () echo).exchange.dispatchers,
      ∀ e, (d.deliver e).OnlyEmits fun _ => True) ∧
    (play .narrow () echo).bus.contents "echo" ≠ [] ∧ (play .narrow () echo).exchange.handled ≠ [] ∧
    ∀ i, (play .narrow () echo).exchange.step? (.dispatcher i) = none := by
  refine ⟨by decide, rfl, returns_echo, List.cons_ne_nil _ _, List.cons_ne_nil _ _, fun i => ?_⟩
  cases i <;> rfl

/-- The subscriber waits for itself. -/
theorem echo_waits_for_itself :
    Relation.TransGen (play .narrow () echo).exchange.WaitsFor "echo" "echo" := by
  obtain ⟨⟨i, step⟩ | ⟨a, ring⟩ | ⟨x, hx, -⟩, -, -⟩ :=
    halted_by_rings_only .narrow () echo rfl returns_echo (.inr (List.cons_ne_nil _ _))
  · cases i <;> exact absurd step Bool.false_ne_true
  · obtain ⟨y, ⟨d, hd, rfl, -⟩, -⟩ := Relation.TransGen.head'_iff.mp ring
    obtain rfl := List.mem_singleton.mp hd
    exact ring
  · exact absurd hx List.not_mem_nil

end Audit

end Pipeworks
