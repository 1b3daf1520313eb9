import Pipeworks.Proofs.Bus.Backpressure
import Pipeworks.Proofs.Run.Registration

/-!
# Interruptions

The main loop sees an interruption while it pulls, and nowhere else: not while it publishes an
event. So an interrupted main loop leaves by its own steps as long as there is room for what it
still has to publish. Where there is none it waits, interrupted or not, and is not left before the
subscriber that it waits for begins with another delivery, which may be never.
-/

namespace Pipeworks

variable {σ : Type}

/-! ## Emissions -/

/-- The steps that an emission takes at most. -/
def Emission.todo (e : Emission) : Nat := 2 * e.left.length + e.holding.toList.length

/-- There is room for everything that an emission has to serve, one delivery to a recipient. -/
structure Emission.HasRoom (e : Emission) (b : Bus) : Prop where
  once : e.unserved.Nodup
  room : ∀ name ∈ e.unserved, ¬ b.IsFull name

namespace Bus

variable {b b' : Bus} {e e' : Emission} {ns : List Note} {name : String}

theorem Serves.todo_lt (serves : b.Serves e ns e' b') : e'.todo < e.todo := by
  cases serves with
  | skipped other left free next => simp [Emission.todo, free, next]
  | found other left free next => simp [Emission.todo, free, next, Nat.mul_add]
  | missed other holding | refused other m holding | put other m holding =>
    simp [Emission.todo, holding]

/-- The recipient that an emission holds on to is served by its next step. -/
theorem Serves.unserved_of_holding (serves : b.Serves e ns e' b')
    (holding : e.holding = some name) : e'.unserved = e.left := by
  cases serves with
  | skipped other left free | found other left free => simp [holding] at free
  | missed | refused | put => rfl

/-- An emission fills the mailbox of no recipient that is still to come. -/
theorem Serves.hasRoom (serves : b.Serves e ns e' b') (room : e.HasRoom b) : e'.HasRoom b' := by
  have fewer := serves.unserved.2
  refine ⟨room.once.sublist fewer, fun name here full => ?_⟩
  have apart : e.holding ≠ some name := by
    intro holding
    have once := room.once
    rw [Emission.unserved, holding] at once
    rw [serves.unserved_of_holding holding] at here
    exact (List.nodup_cons.mp once).1 here
  refine room.room name (fewer.subset here) (full.keep serves.policy.symm ?_)
  exact (serves.intake (.inl apart)).symm

/-- An emission serves nobody whose mailbox is full. -/
theorem Serves.unserved_of_full (serves : b.Serves e ns e' b') (full : b.IsFull name)
    (live : b.isLive name = true) (here : name ∈ e.unserved) : name ∈ e'.unserved := by
  cases serves with
  | skipped other left free next dead =>
    rw [Emission.unserved, free, next] at here
    rcases List.mem_cons.mp here with rfl | later
    · exact absurd (live.symm.trans dead) (by simp)
    · exact later
  | found other left free next =>
    rw [Emission.unserved, free, next] at here
    exact here
  | missed other holding missing =>
    rw [Emission.unserved, holding] at here
    rcases List.mem_cons.mp here with rfl | later
    · exact absurd full.mem_names (notMem_names missing)
    · exact later
  | refused other m holding known deserted =>
    rw [Emission.unserved, holding] at here
    rcases List.mem_cons.mp here with rfl | later
    · exact absurd ((full.not_room known).1.symm.trans deserted) (by simp)
    · exact later
  | put other m holding known receiving room =>
    rw [Emission.unserved, holding] at here
    rcases List.mem_cons.mp here with rfl | later
    · exact absurd room (full.not_room known).2
    · exact later

end Bus

/-! ## Main loops -/

namespace Loop

variable {feed : Feed σ} {l l' : Loop σ} {os : List (Outcome Pulled)} {es : List Emission}
  {ns : List Note} {name : String}

/-- Whether the main loop has been left. -/
def hasLeft (l : Loop σ) : Bool :=
  match l.place with
  | .settling .. | .stopping .. => true
  | _ => false

/-- The recipients that the main loop still has to serve. -/
def unserved (l : Loop σ) : List String := l.callers.flatMap Emission.unserved

/-- The main loop has to put something into a full mailbox. -/
def IsHeldUp (l : Loop σ) (name : String) : Prop :=
  name ∈ l.unserved ∧ l.exchange.bus.IsFull name

theorem mem_unserved : name ∈ l.unserved ↔ ∃ e, l.place = .publishing e ∧ name ∈ e.unserved := by
  rw [unserved, callers]
  cases place : l.place <;> simp

theorem IsHeldUp.hasLeft (held : l.IsHeldUp name) : l.hasLeft = false := by
  obtain ⟨e, publishing, -⟩ := mem_unserved.mp held.1
  rw [Loop.hasLeft, publishing]

/-- A main loop that has to put something into a full mailbox is held up until the subscriber
makes room, whatever else happens. -/
theorem IsHeldUp.step (held : l.IsHeldUp name) (steps : Steps feed l os es ns l')
    (isOpen : l.IsOpen) (live : l.exchange.bus.isLive name = true)
    (unmoved : Unmoved name ns) : l'.IsHeldUp name := by
  obtain ⟨waiting, full⟩ := held
  obtain ⟨e, publishing, here⟩ := mem_unserved.mp waiting
  cases steps with
  | noticed place | missing place | pulled place | stopped place | refused place
  | published place | left place => simp [publishing] at place
  | answered place done =>
    obtain rfl := LoopPlace.publishing.inj (publishing.symm.trans place)
    simp [Emission.isDone] at done
    simp [Emission.unserved, done] at here
  | served place step =>
    obtain rfl := LoopPlace.publishing.inj (publishing.symm.trans place)
    exact ⟨mem_unserved.mpr ⟨_, rfl, step.unserved_of_full full live here⟩, step.isFull full⟩
  | moved step =>
    have moves := Exchange.steps_of_step? step
    have running := Exchange.isRunning_iff.mpr ((isOpen.of_place publishing (by simp)).step moves).1
    refine ⟨mem_unserved.mpr ⟨e, publishing, here⟩, moves.isFull running full ?_⟩
    rintro d hd rfl d' f' own
    exact own.isFull_own full unmoved

end Loop

namespace LoopRecord

variable {c : Context σ} {policy : Policy} {world : σ} {exchange : Exchange σ} {feed : Feed σ}
  {r : LoopRecord σ} {name : String}

/-- The main loop can leave by its own steps. -/
def CanLeave (feed : Feed σ) (r : LoopRecord σ) : Prop :=
  ∃ own : List LoopStep, (∀ s ∈ own, s = .main ∨ s = .notice) ∧
    (own.foldl (step feed) r).loop.hasLeft = true

theorem CanLeave.before {s : LoopStep} (leaves : (r.step feed s).CanLeave feed)
    (own : s = .main ∨ s = .notice) : r.CanLeave feed := by
  obtain ⟨more, all, left⟩ := leaves
  exact ⟨s :: more, List.forall_mem_cons.mpr ⟨own, all⟩, left⟩

/-- While the main loop pulls it sees the interruption, however long the pull goes on. -/
theorem canLeave_of_pulling {ends : Nat} {o : Outcome Pulled}
    (pulling : r.loop.place = .pulling ends o)
    (interrupted : r.loop.exchange.floor.interrupted = true) : r.CanLeave feed := by
  refine ⟨[.notice], by simp, ?_⟩
  rw [List.foldl_cons, List.foldl_nil, step]
  simp [Loop.step?, pulling, interrupted, Loop.hasLeft]

theorem canLeave_of_ready (ready : r.loop.place = .ready)
    (interrupted : r.loop.exchange.floor.interrupted = true) : r.CanLeave feed := by
  refine CanLeave.before (s := .main) ?_ (.inl rfl)
  have pulls : r.loop.step? feed .main = some (r.loop.pull feed) := by
    rw [Loop.step?, Loop.mainStep?, ready]
  rw [step, pulls]
  rw [Loop.pull]
  cases feed.input with
  | none => exact canLeave_of_pulling rfl interrupted
  | some call => exact canLeave_of_pulling rfl (by simp [interrupted])

/-- Where there is room for everything, the main loop gets through with its emission. -/
theorem canLeave_of_publishing {e : Emission} (publishing : r.loop.place = .publishing e)
    (room : e.HasRoom r.loop.exchange.bus)
    (interrupted : r.loop.exchange.floor.interrupted = true) : r.CanLeave feed := by
  induction todo : e.todo using Nat.strong_induction_on generalizing r e with
  | _ n ih =>
    subst todo
    refine CanLeave.before (s := .main) ?_ (.inl rfl)
    rw [step, Loop.step?, Loop.mainStep?, publishing]
    dsimp only
    by_cases done : e.isDone = true
    · rw [if_pos done]
      exact canLeave_of_ready rfl interrupted
    · rw [if_neg done]
      cases served : r.loop.exchange.bus.emitStep? e with
      | none =>
        obtain ⟨name, holding, full⟩ := Bus.holding_of_emitStep? served (Bool.eq_false_iff.mpr done)
        exact absurd full (room.room name (by simp [Emission.unserved, holding]))
      | some next =>
        obtain ⟨e', bus⟩ := next
        have serves := Bus.serves_of_emitStep? served
        exact ih e'.todo serves.todo_lt rfl (serves.hasRoom room) interrupted rfl

/-- An interruption before the run is one that comes first in it. -/
theorem play_begun (feed : Feed σ) (exchange : Exchange σ) (before : Bool) :
    ∃ first, ∀ schedule, play feed exchange before schedule =
      play feed exchange false (first ++ schedule) := by
  cases before with
  | false => exact ⟨[], fun _ => rfl⟩
  | true => exact ⟨[.exchange .interrupt], fun _ => rfl⟩

/-- An interrupted main loop that has room for everything can leave. -/
theorem canLeave_play (ok : register c (.fresh policy world) = (.ok (), exchange))
    (feed : Feed σ) (schedule : List LoopStep)
    (interrupted :
      (play feed exchange false schedule).loop.exchange.floor.interrupted = true)
    (inside : (play feed exchange false schedule).loop.hasLeft = false)
    (room : ∀ name ∈ (play feed exchange false schedule).loop.unserved,
      ¬ (play feed exchange false schedule).loop.exchange.bus.IsFull name) :
    (play feed exchange false schedule).CanLeave feed := by
  have once := (fair_play ok feed schedule).nodup_toServe
  generalize play feed exchange false schedule = r at *
  cases place : r.loop.place with
  | ready => exact canLeave_of_ready place interrupted
  | pulling ends o => exact canLeave_of_pulling place interrupted
  | publishing e =>
    refine canLeave_of_publishing place ⟨?_, ?_⟩ interrupted
    · rw [Audit.toServe, audit, Loop.callers, place] at once
      have own := (List.nodup_append.mp once).2.1
      rw [List.flatMap_singleton] at own
      exact own.of_map _
    · exact fun name here => room name (Loop.mem_unserved.mpr ⟨e, place, here⟩)
  | settling | stopping => simp [Loop.hasLeft, place] at inside

/-- Unless the subscriber begins with a delivery or panics, a main loop stays held up through
whatever happens. -/
theorem isHeldUp_play (ok : register c (.fresh policy world) = (.ok (), exchange))
    (feed : Feed σ) (schedule more : List LoopStep)
    (held : (play feed exchange false schedule).loop.IsHeldUp name) :
    ∃ ns, (play feed exchange false (schedule ++ more)).history =
        (play feed exchange false schedule).history ++ ns ∧
      (Unmoved name ns → (play feed exchange false (schedule ++ more)).loop.IsHeldUp name) := by
  induction more using List.reverseRecOn with
  | nil =>
    rw [List.append_nil]
    exact ⟨[], (List.append_nil _).symm, fun _ => held⟩
  | append_singleton more s ih =>
    obtain ⟨ns, history, stays⟩ := ih
    have isOpen := isOpen_play ok feed (schedule ++ more)
    have sound := sound_play ok feed (schedule ++ more)
    rw [← List.append_assoc, play_concat]
    generalize play feed exchange false (schedule ++ more) = r at *
    cases next : r.loop.step? feed s with
    | none =>
      rw [step, next]
      exact ⟨ns, history, stays⟩
    | some l =>
      rw [step, next]
      refine ⟨ns ++ r.loop.notes feed s, by simp [history], fun unmoved => ?_⟩
      obtain ⟨before, after⟩ := unmoved_append.mp unmoved
      have held := stays before
      obtain ⟨e, publishing, -⟩ := Loop.mem_unserved.mp held.1
      have running := Exchange.isRunning_iff.mpr (isOpen.of_place publishing (by simp)).1
      have live := sound.isLive_of_isFull running held.2
      exact held.step (Loop.steps_of_step? next) isOpen live after

end LoopRecord

/-- When an interrupted main loop that has not been left yet can leave. As long as there is room in
the mailboxes of all whom it still has to serve, it leaves by its own steps, whatever subscribers
do. But while one of those mailboxes is full it cannot leave before the subscriber makes room:
whatever is done, the main loop is not left until that subscriber begins with another delivery, or
loses one by a panic. -/
theorem interruption_waits_for_room {c : Context σ} {policy : Policy} {world : σ}
    {exchange : Exchange σ} (ok : register c (.fresh policy world) = (.ok (), exchange))
    (feed : Feed σ) (before : Bool) (schedule : List LoopStep)
    (interrupted : (LoopRecord.play feed exchange before schedule).loop.exchange.floor.interrupted =
      true)
    (inside : (LoopRecord.play feed exchange before schedule).loop.hasLeft = false) :
    let r := LoopRecord.play feed exchange before schedule
    ((∀ name ∈ r.loop.unserved, ¬ r.loop.exchange.bus.IsFull name) →
      ∃ own : List LoopStep, (∀ s ∈ own, s = .main ∨ s = .notice) ∧
        (LoopRecord.play feed exchange before (schedule ++ own)).loop.hasLeft = true) ∧
    ∀ name ∈ r.loop.unserved, r.loop.exchange.bus.IsFull name → ∀ more ns,
      (LoopRecord.play feed exchange before (schedule ++ more)).history = r.history ++ ns →
      Unmoved name ns →
        (LoopRecord.play feed exchange before (schedule ++ more)).loop.hasLeft = false := by
  obtain ⟨first, same⟩ := LoopRecord.play_begun feed exchange before
  intro r
  simp only [r, same, ← List.append_assoc] at interrupted inside ⊢
  constructor
  · intro room
    obtain ⟨own, all, left⟩ := LoopRecord.canLeave_play ok feed _ interrupted inside room
    refine ⟨own, all, ?_⟩
    rw [LoopRecord.play, List.foldl_append]
    exact left
  · intro name here full more ns history unmoved
    obtain ⟨ms, history', stays⟩ :=
      LoopRecord.isHeldUp_play ok feed (first ++ schedule) more ⟨here, full⟩
    obtain rfl := List.append_cancel_left (history.symm.trans history')
    exact (stays unmoved).hasLeft

/-- A component that gives the same value again and again. -/
def spring : Component Unit where
  input := some fun world => { outcome := .ok (.value .null), world }

/-- A component that takes very long for every input. -/
def glacier : Component Unit where
  processor := some (.ofProcess fun input world =>
    { outcome := .ok input, world, lasts := 1000000 })

def springEntry : Entry Unit := .fresh "spring" "part" "spring" spring ⟨"spring", [], []⟩ []

def glacierContext : Context Unit where
  session := "session"
  entries := [springEntry, .fresh "glacier" "part" "glacier" glacier ⟨"glacier", [], []⟩ []]
  designated := none
  closed := false

/-- Three values are pulled: the glacier works on the first, the second is in its mailbox, and the
third is being published when the run is interrupted. -/
def glacierSchedule : List LoopStep :=
  .replicate 5 .main ++ .replicate 3 (.exchange (.dispatcher 0)) ++ .replicate 8 .main ++
    [.exchange .interrupt]

/-- The main loop does not see the interruption as long as the glacier works. -/
theorem interruption_waits_for_glacier :
    let r := LoopRecord.play (feedOf glacierContext springEntry "quit")
      (register glacierContext (.fresh .narrow ())).2 false
    (r glacierSchedule).loop.exchange.floor.interrupted = true ∧
    (r (glacierSchedule ++ [.notice, .main, .exchange (.wait 999999), .exchange (.dispatcher 0),
      .notice, .main, .giveUp])).loop.hasLeft = false := by
  have registered : register glacierContext (.fresh .narrow ()) =
      (.ok (), (register glacierContext (.fresh .narrow ())).2) := rfl
  have both := interruption_waits_for_room registered (feedOf glacierContext springEntry "quit")
    false glacierSchedule rfl rfl
  refine ⟨rfl, both.2 "glacier" ?_ ?_ _ [] rfl (by simp [Unmoved, tried, gone])⟩
  · exact List.mem_cons_self ..
  · exact ⟨_, rfl, Nat.le_refl _⟩

end Pipeworks
