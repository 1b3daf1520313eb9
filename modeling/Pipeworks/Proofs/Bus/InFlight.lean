import Pipeworks.Proofs.Bus.Calls
import Pipeworks.Proofs.Bus.Conservation

/-!
# Work in flight

The counter of work in flight is raised and lowered by hand in many places. Every unit of it
has a holder: a delivery in a mailbox or with its subscriber, a send that has found its mailbox
and waits for room, or tracked work. `Bus.Bears` says of a step that the counter changes with
the holders, provided that it does not fall short of them before the step; so it never does.
`Bus.Leaks` says of a panic that the counter keeps what is lost with the subscriber: from then on
it exceeds what has a holder.
-/

namespace Pipeworks

variable {σ : Type}

/-- Whether a delivery in a spot is work in flight. -/
def Spot.isFlying : Spot → Bool
  | waiting _ | handled _ => true
  | pending _ => false

/-- The deliveries in flight that some notes take away from their spots. -/
def taken (ns : List Note) : Nat := crowd Spot.isFlying (ns.filterMap Note.departure)

/-- The deliveries in flight that some notes bring to a spot. -/
def brought (ns : List Note) : Nat := crowd Spot.isFlying (ns.filterMap Note.arrival)

/-- The sends of emissions that have found their mailbox. -/
def sends (es : List Emission) : Nat := es.countP (·.holding.isSome)

@[simp] theorem taken_nil : taken [] = 0 := rfl

@[simp] theorem brought_nil : brought [] = 0 := rfl

@[simp] theorem sends_nil : sends [] = 0 := rfl

theorem sends_append (es fs : List Emission) : sends (es ++ fs) = sends es + sends fs :=
  List.countP_append

theorem sends_of_perm {es rest : List Emission} {e : Emission} (one : es.Perm (e :: rest)) :
    sends es = sends [e] + sends rest := by
  rw [← sends_append]
  exact one.countP_eq _

/-- A change of the bus keeps account of the work in flight: `before` and `after` are the units
that others than deliveries hold. -/
def Bus.Bears (b : Bus) (before : Nat) (ns : List Note) (after : Nat) (b' : Bus) : Prop :=
  before + taken ns ≤ b.inFlight + brought ns →
    b'.inFlight + before + taken ns = b.inFlight + after + brought ns

namespace Bus

variable {b b' : Bus} {x y : Nat} {ns : List Note}

theorem Bears.beside (bears : b.Bears x ns y b') (z : Nat) : b.Bears (x + z) ns (y + z) b' := by
  intro enough
  have := bears (by omega)
  omega

theorem bears_still (same : b'.inFlight = b.inFlight) (none : taken ns = 0) (nothing : brought ns = 0) :
    b.Bears x ns x b' := by
  intro _
  rw [same, none, nothing]

theorem Serves.bears {e e' : Emission} (serves : b.Serves e ns e' b') :
    b.Bears (sends [e]) ns (sends [e']) b' := by
  have holds {e : Emission} {name : String} (holding : e.holding = some name) : sends [e] = 1 := by
    simp [sends, holding]
  have free {e : Emission} (holding : e.holding = none) : sends [e] = 0 := by simp [sends, holding]
  intro enough
  cases serves with
  | skipped name left idle =>
    rw [free idle, free rfl]
    rfl
  | found name left idle =>
    rw [free idle, holds rfl]
    rfl
  | missed name holding | refused name m holding =>
    rw [holds holding] at enough ⊢
    rw [free rfl]
    exact Nat.sub_add_cancel enough
  | put name m holding =>
    rw [holds holding, free rfl]
    rfl

theorem inFlight_take? {name : String} {d : Delivery} (taken : b.take? name = some (d, b')) :
    b'.inFlight = b.inFlight := by
  obtain ⟨-, -, -, -, rfl⟩ := take?_eq_some taken
  rfl

/-- A delivery that fails is in flight no more, whatever is made of it. -/
theorem fail_bears (b : Bus) (now : Nat) (name : String) (d : Delivery) (e : Fault) :
    (b.fail now name d e).inFlight = b.inFlight - 1 ∧
      taken [b.failureNote now name d e] = 1 ∧ brought [b.failureNote now name d e] = 0 := by
  rw [fail, failureNote]
  cases b.policy.afterFailure now name d e.message <;> exact ⟨rfl, rfl, rfl⟩

theorem Requeues.bears {now : Nat} (requeues : b.Requeues now ns b') : b.Bears x ns x b' := by
  cases requeues with
  | returned | full => exact bears_still rfl rfl rfl
  | put =>
    intro _
    change b.inFlight + 1 + x + 0 = b.inFlight + x + 1
    omega

/-- A change of the bus by which deliveries in flight are lost that the counter keeps. -/
structure Leaks (b : Bus) (before : Nat) (ns : List Note) (after : Nat) (b' : Bus) : Prop where
  lost : 1 ≤ taken ns
  nothing : brought ns = 0
  load : b'.inFlight + before = b.inFlight + after

theorem Leaks.beside (leaks : b.Leaks x ns y b') (z : Nat) : b.Leaks (x + z) ns (y + z) b' := by
  refine ⟨leaks.lost, leaks.nothing, ?_⟩
  have := leaks.load
  omega

end Bus

/-! ## Steps -/

theorem Emission.sends_of_isDone {e : Emission} (done : e.isDone = true) : sends [e] = 0 := by
  simp only [isDone, Bool.and_eq_true] at done
  simp_all [sends]

theorem Activity.Steps.bears {f f' : Floor σ} {a : Activity σ} {ns : List Note}
    {stride : Stride σ} (steps : Activity.Steps f a ns stride f') :
    f.bus.Bears (sends a.calls + f.tasks.length) ns (sends stride.calls + f'.tasks.length) f'.bus := by
  cases steps with
  | quiet same tasks before after load =>
    rw [calls, before, Stride.calls, after]
    intro _
    change f'.bus.inFlight + (0 + f.tasks.length) = f.bus.inFlight + (0 + f'.tasks.length)
    omega
  | accepted ok =>
    obtain ⟨-, rfl, rfl⟩ := Bus.accept_ok ok
    exact Bus.bears_still rfl rfl rfl
  | @answered e next done =>
    have before : sends (calls (σ := σ) (.emitting e next)) = 0 := Emission.sends_of_isDone done
    rw [before]
    exact Bus.bears_still rfl rfl rfl
  | served step => exact step.bears.beside f.tasks.length

/-- A program that ends holds no send, and leaves the account of tracked work right. -/
theorem Activity.Steps.ended_load {f f' : Floor σ} {a : Activity σ} {ns : List Note}
    {o : Outcome Unit} (steps : Activity.Steps f a ns (.ended o) f') :
    ns = [] ∧ a.calls = [] ∧
      f'.bus.inFlight + f.tasks.length = f.bus.inFlight + f'.tasks.length := by
  cases steps with
  | quiet same tasks before after load =>
    refine ⟨rfl, ?_, load⟩
    rw [calls, before]
    rfl

theorem Dispatcher.Steps.bears {f f' : Floor σ} {d d' : Dispatcher σ} {ns : List Note}
    (steps : d.Steps f ns d' f') (calm : d'.hasCrashed = false) :
    f.bus.Bears (sends d.calls + f.tasks.length) ns (sends d'.calls + f'.tasks.length) f'.bus := by
  have nobody {d : Dispatcher σ} (idle : d.post = .idle) : sends d.calls = 0 := by
    rw [calls, idle]
    rfl
  have busy {x a} (post : d.post = .handling x a) : d.calls = a.calls := by rw [calls, post]
  cases steps with
  | @took x bus idle taken =>
    intro _
    have same : bus.inFlight = f.bus.inFlight := Bus.inFlight_take? taken
    change bus.inFlight + (sends d.calls + f.tasks.length) + 1 =
      f.bus.inFlight + (0 + f.tasks.length) + 1
    rw [nobody idle, same]
  | retired idle =>
    rw [nobody idle]
    exact Bus.bears_still rfl rfl rfl
  | worked post step =>
    rw [busy post]
    exact step.bears
  | @succeeded x a ns f' post step =>
    obtain ⟨-, none, load⟩ := step.ended_load
    intro enough
    rw [busy post, none] at enough ⊢
    change 0 + f.tasks.length + 1 ≤ f.bus.inFlight + 0 at enough
    change f'.bus.inFlight - 1 + (0 + f.tasks.length) + 1 = f.bus.inFlight + (0 + f'.tasks.length) + 0
    omega
  | @failed x a ns e f' post step =>
    obtain ⟨-, none, load⟩ := step.ended_load
    obtain ⟨less, one, nothing⟩ := f'.bus.fail_bears f'.clock d.name x e
    intro enough
    rw [busy post, none, one, nothing] at enough
    rw [busy post, none, one, nothing, less]
    change 0 + f.tasks.length + 1 ≤ f.bus.inFlight + 0 at enough
    change f'.bus.inFlight - 1 + (0 + f.tasks.length) + 1 = f.bus.inFlight + (0 + f'.tasks.length) + 0
    omega
  | crashed => simp [hasCrashed] at calm

/-- A subscriber that has crashed is not one that steps. -/
theorem Dispatcher.Steps.awake {f f' : Floor σ} {d d' : Dispatcher σ} {ns : List Note}
    (steps : d.Steps f ns d' f') : d.hasCrashed = false := by
  cases steps with
  | took post | retired post | worked post | succeeded post | failed post | crashed post =>
    rw [hasCrashed, post]

/-- A subscriber that crashes loses the delivery at hand and those that wait for it. -/
theorem Dispatcher.Steps.leaks {f f' : Floor σ} {d d' : Dispatcher σ} {ns : List Note}
    (steps : d.Steps f ns d' f') (crashed : d'.hasCrashed = true) :
    f.bus.Leaks (sends d.calls + f.tasks.length) ns (sends d'.calls + f'.tasks.length) f'.bus := by
  cases steps with
  | @crashed x a ns text f' post step =>
    obtain ⟨-, none, load⟩ := step.ended_load
    have before : d.calls = [] := by
      rw [calls, post]
      exact none
    refine ⟨?_, ?_, ?_⟩
    · have leaves : (Note.lost d.name x).departure = some (x.parcel d.name, .handled x.attempt) := rfl
      rw [taken, List.filterMap_cons_some leaves, crowd, List.countP_cons_of_pos rfl]
      exact Nat.le_add_left ..
    · simp [brought, Note.arrival, crowd]
    · rw [before]
      change f'.bus.inFlight + (0 + f.tasks.length) = f.bus.inFlight + (0 + f'.tasks.length)
      omega
  | took | retired | worked | succeeded | failed => simp [hasCrashed] at crashed

/-- Whether a dispatcher was aborted. -/
def Dispatcher.isAborted (d : Dispatcher σ) : Bool :=
  match d.post with
  | .aborted => true
  | _ => false

/-- Whether no dispatcher has been aborted. -/
def Exchange.isWhole (s : Exchange σ) : Bool := s.dispatchers.all fun d => !d.isAborted

/-- How many dispatchers have crashed. -/
def Exchange.crashes (s : Exchange σ) : Nat := s.dispatchers.countP (·.hasCrashed)

/-- Whether no emission is broken off between two states: when shutting down ends, it aborts
the tracked work that still goes on. -/
def Exchange.spares (s s' : Exchange σ) : Bool :=
  s'.shutdownReport?.isNone || s.floor.tasks.all (·.emission?.isNone)

theorem taken_discarded (rs : List Retry) :
    taken (rs.map .discarded) = 0 ∧ brought (rs.map .discarded) = 0 := by
  constructor
  · rw [taken, crowd, List.countP_eq_zero]
    intro e he
    obtain ⟨n, hn, left⟩ := List.mem_filterMap.mp he
    obtain ⟨r, -, rfl⟩ := List.mem_map.mp hn
    obtain rfl := Option.some.inj left
    exact Bool.false_ne_true
  · rw [brought, filterMap_discarded fun _ => rfl]
    rfl

namespace Exchange

variable {s s' : Exchange σ} {ns : List Note}

theorem isWhole_iff : s.isWhole ↔ ∀ d ∈ s.dispatchers, d.isAborted = false := by
  simp [isWhole]

theorem sends_one {α : Type} {l : List α} {i : Nat} {x : α} {g : α → List Emission}
    (found : l[i]? = some x) :
    sends (l.flatMap g) = sends (g x) + sends ((l.eraseIdx i).flatMap g) ∧
      ∀ x', sends ((l.set i x').flatMap g) = sends (g x') + sends ((l.eraseIdx i).flatMap g) := by
  obtain ⟨before, after⟩ := flatMap_set_perm found g
  refine ⟨?_, fun x' => ?_⟩
  · rw [sends, before.countP_eq, ← sends, sends_append]
  · rw [sends, (after x').countP_eq, ← sends, sends_append]

theorem sends_calls : sends s.calls =
    sends (s.dispatchers.flatMap Dispatcher.calls) + sends (s.floor.tasks.flatMap Activity.calls) := by
  rw [calls, sends_append]

theorem crashes_eq_zero_iff : s.crashes = 0 ↔ s.isCalm := by
  rw [isCalm_iff, crashes, List.countP_eq_zero]
  simp only [Bool.not_eq_true]

/-- A dispatcher that takes a step has not crashed before. -/
theorem crashes_dispatched {i : Nat} {d d' : Dispatcher σ} {f f' : Floor σ}
    (found : s.dispatchers[i]? = some d) (step : d.Steps f ns d' f') :
    (s.dispatchers.set i d').countP (·.hasCrashed) =
      s.crashes + if d'.hasCrashed then 1 else 0 := by
  obtain ⟨before, after⟩ := set_perm found
  rw [crashes, (after d').countP_eq, before.countP_eq, List.countP_cons, List.countP_cons,
    step.awake, if_neg Bool.false_ne_true, Nat.add_zero]

/-- A step keeps account of the work in flight, as long as nobody panics in it, no dispatcher is
aborted and no emission is broken off. -/
theorem Steps.bears (steps : s.Steps ns s') (calm : s'.crashes ≤ s.crashes) (whole : s'.isWhole)
    (spared : s.spares s') :
    s.bus.Bears (sends s.calls + s.floor.tasks.length) ns
      (sends s'.calls + s'.floor.tasks.length) s'.bus := by
  cases steps with
  | @dispatched i d ns d' f' found step =>
    obtain ⟨before, after⟩ := sends_one found (g := Dispatcher.calls)
    have awake : d'.hasCrashed = false := by
      rw [crashes, crashes_dispatched found step] at calm
      by_contra crashed
      rw [Bool.not_eq_false] at crashed
      rw [crashed, if_pos rfl] at calm
      omega
    have bears := (step.bears awake).beside
      (sends ((s.dispatchers.eraseIdx i).flatMap Dispatcher.calls) +
        sends (s.floor.tasks.flatMap Activity.calls))
    rw [sends_calls, sends_calls, before, after d', step.calls_tasks]
    dsimp only [Bus.Bears, bus] at bears ⊢
    omega
  | @worked i a ns a' f' found step =>
    obtain ⟨before, after⟩ := sends_one (step.tasks.2 i a found) (g := Activity.calls)
    rw [step.calls_tasks] at before
    have bears := step.bears.beside (sends (s.dispatchers.flatMap Dispatcher.calls) +
      sends ((f'.tasks.eraseIdx i).flatMap Activity.calls))
    rw [sends_calls, sends_calls, before, after a', List.length_set]
    have same : sends (Stride.on a').calls = sends a'.calls := rfl
    dsimp only [Bus.Bears, bus] at bears ⊢
    omega
  | @finished i a ns o f' found step =>
    obtain ⟨rfl, silent, load⟩ := step.ended_load
    obtain ⟨inside, -⟩ := List.getElem?_eq_some_iff.mp (step.tasks.2 i a found)
    obtain ⟨before, -⟩ := sends_one (step.tasks.2 i a found) (g := Activity.calls)
    rw [step.calls_tasks, silent, sends_nil] at before
    rw [sends_calls, sends_calls, before]
    dsimp only [Bus.Bears, bus, Bus.settle]
    rw [taken_nil, brought_nil, List.length_eraseIdx_of_lt inside]
    omega
  | requeued step => exact step.bears
  | truncated deadline next aborted =>
    obtain ⟨none, nothing⟩ := taken_discarded s.bus.retries
    exact Bus.bears_still rfl none nothing
  | aborted deadline next aborted joining found =>
    have := isWhole_iff.mp whole _ (mem_set found _)
    simp [Dispatcher.isAborted] at this
  | drained =>
    have silent : s.floor.tasks.flatMap Activity.calls = [] := by
      rw [spares, shutdownReport?, Option.isNone_some, Bool.false_or, List.all_eq_true] at spared
      refine List.flatMap_eq_nil_iff.mpr fun a ha => ?_
      rw [Activity.calls, Option.isNone_iff_eq_none.mp (spared a ha)]
      rfl
    rw [sends_calls, sends_calls, silent]
    dsimp only [Bus.Bears, bus]
    rw [List.flatMap_nil, sends_nil, taken_nil, brought_nil, List.length_nil]
    omega
  | _ => exact Bus.bears_still rfl rfl rfl

end Exchange

theorem Audit.Steps.bears {s : Audit σ} {ns : List Note} {exchange : Exchange σ}
    {callers : List Emission} (steps : s.Steps ns exchange callers)
    (calm : exchange.crashes ≤ s.exchange.crashes) (whole : exchange.isWhole)
    (spared : s.exchange.spares exchange) :
    s.bus.Bears (sends s.calls + s.exchange.floor.tasks.length) ns
      (sends (exchange.calls ++ callers) + exchange.floor.tasks.length) exchange.bus := by
  have outside : sends s.calls = sends s.exchange.calls + sends s.callers := by
    rw [calls, sends_append]
  rw [outside, sends_append]
  cases steps with
  | subscribed running ok =>
    obtain ⟨bus, done, rfl⟩ := Exchange.subscribe_ok ok
    obtain ⟨-, rfl⟩ := Bus.subscribe_ok done
    exact Bus.bears_still rfl rfl rfl
  | started =>
    have same : s.exchange.start.calls = s.exchange.calls :=
      congrArg (· ++ s.exchange.floor.tasks.flatMap Activity.calls)
        (Exchange.flatMap_start fun _ _ => rfl)
    rw [same]
    exact Bus.bears_still rfl rfl rfl
  | published ok =>
    obtain ⟨-, rfl, rfl⟩ := Bus.accept_ok ok
    rw [sends_append]
    exact Bus.bears_still rfl rfl rfl
  | @answered i e found done =>
    have gone : sends s.callers = sends (s.callers.eraseIdx i) := by
      rw [sends_of_perm (set_perm found).1, Emission.sends_of_isDone done, Nat.zero_add]
    rw [gone]
    exact Bus.bears_still rfl rfl rfl
  | @served i e ns e' bus' found step =>
    obtain ⟨before, after⟩ := set_perm found
    have bears := step.bears.beside (sends s.exchange.calls + sends (s.callers.eraseIdx i) +
      s.exchange.floor.tasks.length)
    have same : (s.exchange.onBus fun _ => bus').calls = s.exchange.calls := rfl
    rw [sends_of_perm before, sends_of_perm (after e'), same]
    dsimp only [Bus.Bears, bus, Exchange.bus, Exchange.onBus] at bears ⊢
    omega
  | moved step =>
    have bears := (step.bears calm whole spared).beside (sends s.callers)
    dsimp only [Bus.Bears, bus] at bears ⊢
    omega
  | idle | touched | shut => exact Bus.bears_still rfl rfl rfl

/-! ## Panics -/

/-- In a step in which the crashed dispatchers become more, one crashes. -/
theorem Exchange.Steps.leaks {s s' : Exchange σ} {ns : List Note} (steps : s.Steps ns s')
    (crashed : s.crashes < s'.crashes) :
    s'.crashes = s.crashes + 1 ∧ s.bus.Leaks (sends s.calls + s.floor.tasks.length) ns
      (sends s'.calls + s'.floor.tasks.length) s'.bus := by
  cases steps with
  | @dispatched i d ns d' f' found step =>
    have more := crashes_dispatched found step
    have down : d'.hasCrashed = true := by
      by_contra awake
      rw [if_neg awake] at more
      exact absurd crashed (Nat.not_lt.mpr (Nat.le_of_eq more))
    rw [if_pos down] at more
    refine ⟨more, ?_⟩
    obtain ⟨before, after⟩ := sends_one found (g := Dispatcher.calls)
    have leaks := (step.leaks down).beside
      (sends ((s.dispatchers.eraseIdx i).flatMap Dispatcher.calls) +
        sends (s.floor.tasks.flatMap Activity.calls))
    refine ⟨leaks.lost, leaks.nothing, ?_⟩
    have load := leaks.load
    rw [sends_calls, sends_calls, before, after d', step.calls_tasks]
    dsimp only [bus] at load ⊢
    omega
  | @aborted d deadline next aborted joining found =>
    obtain ⟨before, after⟩ := set_perm found
    have fewer : (s.dispatchers.set next { d with post := .aborted }).countP (·.hasCrashed) ≤
        s.crashes := by
      rw [crashes, (after _).countP_eq, before.countP_eq, List.countP_cons, List.countP_cons]
      exact Nat.le_add_right ..
    exact absurd crashed (Nat.not_lt.mpr fewer)
  | _ => exact absurd crashed (Nat.lt_irrefl _)

theorem Audit.Steps.leaks {s : Audit σ} {ns : List Note} {exchange : Exchange σ}
    {callers : List Emission} (steps : s.Steps ns exchange callers)
    (crashed : s.exchange.crashes < exchange.crashes) :
    exchange.crashes = s.exchange.crashes + 1 ∧
      s.bus.Leaks (sends s.calls + s.exchange.floor.tasks.length) ns
        (sends (exchange.calls ++ callers) + exchange.floor.tasks.length) exchange.bus := by
  cases steps with
  | subscribed running ok =>
    obtain ⟨bus, -, rfl⟩ := Exchange.subscribe_ok ok
    exact absurd crashed (Nat.lt_irrefl _)
  | started =>
    have none : (s.exchange.unstarted.map fun x => (⟨x.1, x.2, .idle⟩ : Dispatcher σ)).countP
        (·.hasCrashed) = 0 := by
      simp [List.countP_eq_zero, Dispatcher.hasCrashed]
    have same : s.exchange.start.crashes = s.exchange.crashes := by
      rw [Exchange.crashes, Exchange.start, List.countP_append]
      exact congrArg (s.exchange.crashes + ·) none
    exact absurd crashed (same ▸ Nat.lt_irrefl _)
  | moved step =>
    obtain ⟨more, leaks⟩ := step.leaks crashed
    refine ⟨more, ?_⟩
    have leaks := leaks.beside (sends s.callers)
    refine ⟨leaks.lost, leaks.nothing, ?_⟩
    have load := leaks.load
    rw [calls, sends_append, sends_append]
    dsimp only [bus] at load ⊢
    omega
  | _ => exact absurd crashed (Nat.lt_irrefl _)

/-! ## Runs -/

namespace Exchange

variable {s s' : Exchange σ} {ns : List Note}

/-- Nobody comes back after an abort. -/
theorem Steps.whole (steps : s.Steps ns s') (whole : s'.isWhole) : s.isWhole := by
  rw [isWhole_iff] at whole ⊢
  cases steps with
  | @dispatched i d ns d' f' found step =>
    obtain ⟨before, after⟩ := set_perm found
    intro x hx
    rcases List.mem_cons.mp (before.mem_iff.mp hx) with rfl | hx
    · cases step with
      | took post | retired post | worked post | succeeded post | failed post | crashed post =>
        rw [Dispatcher.isAborted, post]
    · exact whole x ((after d').mem_iff.mpr (List.mem_cons_of_mem _ hx))
  | aborted deadline next aborted joining found =>
    have := whole _ (mem_set found _)
    simp [Dispatcher.isAborted] at this
  | _ => exact whole

end Exchange

namespace Audit

variable {p : Policy} {s : Audit σ} {ns : List Note} {exchange : Exchange σ}
  {callers : List Emission}

theorem Steps.whole (steps : s.Steps ns exchange callers) (whole : exchange.isWhole) :
    s.exchange.isWhole := by
  cases steps with
  | subscribed before ok =>
    obtain ⟨bus, -, rfl⟩ := Exchange.subscribe_ok ok
    exact whole
  | started =>
    refine Exchange.isWhole_iff.mpr fun d hd => ?_
    exact Exchange.isWhole_iff.mp whole d (List.mem_append_left _ hd)
  | moved step => exact step.whole whole
  | _ => exact whole

/-- The units of work in flight that have a holder. -/
def held (s : Audit σ) : Nat :=
  s.bus.waiting.length + s.exchange.handled.length + sends s.calls + s.exchange.floor.tasks.length

theorem held_eq (s : Audit σ) : s.held =
    crowd Spot.isFlying s.exchange.placed + (sends s.calls + s.exchange.floor.tasks.length) := by
  rw [s.exchange.crowd_placed true true false (fun _ => rfl) (fun _ => rfl) (fun _ => rfl)]
  simp only [held, bus, if_true, Bool.false_eq_true, if_false]
  omega

/-- Every step keeps account of the work in flight. -/
theorem Steps.held (steps : s.Steps ns exchange callers) (sound : s.Sound p)
    (account : s.bus.inFlight = s.held) (calm : exchange.isCalm) (whole : exchange.isWhole)
    (spared : s.exchange.spares exchange) :
    exchange.bus.inFlight = (⟨exchange, callers, s.history ++ ns⟩ : Audit σ).held := by
  have traffic := (sound.step steps).posts.traffic Spot.isFlying
  have before := sound.posts.traffic Spot.isFlying
  have bears := steps.bears (by rw [Exchange.crashes_eq_zero_iff.mpr calm]; exact Nat.zero_le _) whole spared
  simp only [List.filterMap_append, crowd, List.countP_append] at traffic before
  rw [held_eq] at account ⊢
  simp only [Bus.Bears, taken, brought, crowd] at bears
  simp only [crowd, calls] at account ⊢ bears
  omega

/-- Whoever crashes leaves work in flight behind that nobody holds. -/
theorem Steps.covers (steps : s.Steps ns exchange callers) (sound : s.Sound p)
    (enough : s.held + s.exchange.crashes ≤ s.bus.inFlight) (whole : exchange.isWhole)
    (spared : s.exchange.spares exchange) :
    (⟨exchange, callers, s.history ++ ns⟩ : Audit σ).held + exchange.crashes ≤
      exchange.bus.inFlight := by
  have traffic := (sound.step steps).posts.traffic Spot.isFlying
  have before := sound.posts.traffic Spot.isFlying
  simp only [List.filterMap_append, crowd, List.countP_append] at traffic before
  rw [held_eq] at enough ⊢
  simp only [crowd, calls] at enough ⊢
  rcases Nat.lt_or_ge s.exchange.crashes exchange.crashes with crashed | calm
  · obtain ⟨more, lost, nothing, load⟩ := steps.leaks crashed
    simp only [taken, brought, crowd, calls] at lost nothing load
    omega
  · have bears := steps.bears calm whole spared
    simp only [Bus.Bears, taken, brought, crowd, calls] at bears
    omega

end Audit

end Pipeworks
