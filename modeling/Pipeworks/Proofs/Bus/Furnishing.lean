import Pipeworks.Proofs.Bus.Enrolment
import Pipeworks.Proofs.Bus.Traffic

/-!
# Streams have the room of the policy

Streams are opened by work alone, each with the room that the policy asks for, and nothing changes
the room of one that is open. So on every bus all streams have the same room. A bus whose policy
asks for more room than there can be has no stream at all.
-/

namespace Pipeworks

variable {σ : Type}

namespace Channel

variable {c c' : Channel}

@[simp]
theorem capacity_conclude (chunk : Chunk) : (c.conclude chunk).capacity = c.capacity := rfl

@[simp]
theorem capacity_notice : c.notice.capacity = c.capacity := rfl

@[simp]
theorem capacity_dropWriter : c.dropWriter.capacity = c.capacity := rfl

@[simp]
theorem capacity_dropReader : c.dropReader.capacity = c.capacity := rfl

@[simp]
theorem capacity_clean (now ttl : Nat) : (c.clean now ttl).capacity = c.capacity := by
  rw [clean]
  split <;> rfl

@[simp]
theorem capacity_truncate : c.truncate.capacity = c.capacity := by
  rw [truncate]
  split <;> rfl

theorem capacity_number {id : String} {data : Json} {isFinal : Bool} {chunk : Chunk}
    (ok : c.number id data isFinal = .ok (chunk, c')) : c'.capacity = c.capacity := by
  rw [number] at ok
  split at ok
  · cases ok
  · cases ok
    rfl

@[simp]
theorem capacity_push (chunk : Chunk) : (c.push chunk).2.capacity = c.capacity := by
  rw [push]
  split
  · rfl
  · split <;> rfl

@[simp]
theorem capacity_poll (id : String) : (c.poll id).2.capacity = c.capacity := by
  rw [poll]
  split
  · rfl
  · split
    · rfl
    · split <;> rfl

end Channel

/-! ## All streams -/

namespace Streams

variable {s s' s'' : Streams} {id : String} {capacity : Nat}

/-- How much room each stream has, the latest first. -/
def rooms (s : Streams) : List Nat := s.channels.map fun c => c.2.capacity

/-- There are the same streams, with the same room. -/
structure Keeps (s s' : Streams) : Prop where
  names : s'.names = s.names
  rooms : s'.rooms = s.rooms

theorem Keeps.refl (s : Streams) : s.Keeps s := ⟨rfl, rfl⟩

theorem Keeps.trans (first : s.Keeps s') (second : s'.Keeps s'') : s.Keeps s'' :=
  ⟨second.names.trans first.names, second.rooms.trans first.rooms⟩

theorem keeps_change {f : Channel → Channel}
    (same : ∀ c, s.get? id = some c → (f c).capacity = c.capacity) : s.Keeps (s.change id f) := by
  refine ⟨names_change s id f, ?_⟩
  simp only [get?] at same
  simp only [rooms, change]
  generalize s.channels = channels at same ⊢
  induction channels with
  | nil => rfl
  | cons m rest ih =>
    obtain ⟨k, c⟩ := m
    rw [changeIn]
    by_cases here : k = id
    · subst here
      rw [if_pos rfl, List.map_cons, List.map_cons, same c List.lookup_cons_self]
    · rw [if_neg here, List.map_cons, List.map_cons, ih fun c known => same c ?_]
      rw [List.lookup_cons, beq_eq_false_iff_ne.mpr (Ne.symm here)]
      exact known

theorem keeps_set {c c' : Channel} (known : s.get? id = some c) (same : c'.capacity = c.capacity) :
    s.Keeps (s.set id c') :=
  keeps_change fun c₀ known₀ => by
    obtain rfl := Option.some.inj (known.symm.trans known₀)
    exact same

theorem keeps_map {g : Channel → Channel} (same : ∀ c, (g c).capacity = c.capacity) :
    s.Keeps ⟨s.channels.map fun c => (c.1, g c.2)⟩ :=
  ⟨names_map s g, by simp [rooms, same]⟩

theorem keeps_number {data : Json} {isFinal : Bool} {chunk : Chunk}
    (ok : s.number id data isFinal = .ok (chunk, s')) : s.Keeps s' := by
  rw [number] at ok
  split at ok
  · cases ok
  · rename_i c known
    cases numbered : c.number id data isFinal with
    | error e => simp [numbered, Except.map] at ok
    | ok r =>
      simp only [numbered, Except.map, Except.ok.injEq, Prod.mk.injEq] at ok
      obtain ⟨-, rfl⟩ := ok
      exact keeps_set known (Channel.capacity_number numbered)

theorem keeps_send (s : Streams) (chunk : Chunk) : s.Keeps (s.send chunk).2 := by
  have pushed : s.Keeps (s.push chunk).2 := by
    rw [push]
    split
    · exact .refl s
    · rename_i c known
      exact keeps_set known (Channel.capacity_push chunk)
  rw [send]
  generalize s.push chunk = r at pushed
  obtain ⟨w, after⟩ := r
  cases w with
  | sent => exact pushed.trans (keeps_change fun c _ => Channel.capacity_conclude chunk)
  | full | refused => exact pushed

theorem keeps_claim (s : Streams) (id : String) : s.Keeps (s.claim id).2 := by
  rw [claim]
  split
  · exact .refl s
  · rename_i c known
    split
    · exact .refl s
    · split
      · exact keeps_set known rfl
      · exact .refl s

theorem keeps_poll (s : Streams) (id : String) : s.Keeps (s.poll id).2 := by
  rw [poll]
  split
  · exact .refl s
  · rename_i c known
    exact keeps_set known (Channel.capacity_poll id)

theorem keeps_read (s : Streams) (id : String) : s.Keeps (s.read id).2 := by
  have first := s.keeps_poll id
  rw [read]
  split
  · rename_i after polled
    rw [polled] at first
    exact first.trans ((keeps_change fun c _ => Channel.capacity_notice).trans (keeps_poll _ id))
  · exact first

/-- What becomes of streams when those that are opened get some room: they are kept, or one is
opened. -/
inductive Grows (capacity : Nat) (s : Streams) : Streams → Prop where
  | kept {s' : Streams} (keeps : s.Keeps s') : Grows capacity s s'
  | opened {s' : Streams} {id : String} {now : Nat} (ok : s.start capacity now = .ok (id, s')) :
      Grows capacity s s'

/-- All streams were opened with the same room, and there can be as much. -/
structure Furnished (capacity : Nat) (s : Streams) : Prop where
  numbered : s.IsNumbered
  rooms : ∀ room ∈ s.rooms, room = max capacity 1 ∧ capacity ≤ maxRoom

theorem Furnished.grows (furnished : s.Furnished capacity) (grows : s.Grows capacity s') :
    s'.Furnished capacity := by
  cases grows with
  | kept keeps =>
    refine ⟨?_, by rw [keeps.rooms]; exact furnished.rooms⟩
    rw [IsNumbered, keeps.names]
    exact furnished.numbered
  | opened ok =>
    refine ⟨(furnished.numbered.start ok).1, ?_⟩
    rw [start, reserve] at ok
    split at ok
    · rename_i room
      obtain ⟨-, rfl⟩ := Prod.mk.inj (Outcome.ok.inj ok)
      exact List.forall_mem_cons.mpr ⟨⟨rfl, room⟩, furnished.rooms⟩
    · cases ok

end Streams

/-! ## Steps -/

theorem Bus.Serves.streams {b b' : Bus} {e e' : Emission} {ns : List Note}
    (serves : b.Serves e ns e' b') : b'.streams = b.streams := by
  cases serves <;> rfl

theorem Bus.Requeues.streams {b b' : Bus} {now : Nat} {ns : List Note}
    (requeues : b.Requeues now ns b') : b'.streams = b.streams := by
  cases requeues <;> rfl

open Streams in
/-- A step of a program opens a stream with the room of the policy, or keeps the streams. -/
theorem Activity.grows_step? {f f' : Floor σ} {a : Activity σ} {stride : Stride σ}
    (step : a.step? f = some (stride, f')) :
    f.bus.streams.Grows f.bus.policy.streamCapacity f'.bus.streams := by
  cases a with
  | running w =>
    rw [step?] at step
    cases w with
    | openStream next =>
      simp only [workStep?] at step
      cases started : f.bus.streams.start f.bus.policy.streamCapacity f.clock with
      | ok r =>
        simp only [started, onStreams, onBus] at step
        obtain ⟨-, rfl⟩ := Prod.mk.inj (Option.some.inj step)
        exact .opened started
      | failed | panicked =>
        simp only [started] at step
        obtain ⟨-, rfl⟩ := Prod.mk.inj (Option.some.inj step)
        exact .kept (.refl _)
    | write id data isFinal next =>
      simp only [workStep?] at step
      cases numbered : f.bus.streams.number id data isFinal with
      | error e =>
        simp only [numbered] at step
        obtain ⟨-, rfl⟩ := Prod.mk.inj (Option.some.inj step)
        exact .kept (.refl _)
      | ok r =>
        simp only [numbered] at step
        obtain ⟨-, rfl⟩ := Prod.mk.inj (Option.some.inj step)
        exact .kept (keeps_number numbered)
    | drain id output collected =>
      have keeps := f.bus.streams.keeps_read id
      simp only [workStep?] at step
      rcases read : f.bus.streams.read id with ⟨r, streams⟩
      rw [read] at keeps
      cases r <;> simp only [read, onStreams, onBus, reduceCtorEq] at step <;>
        obtain ⟨-, rfl⟩ := Prod.mk.inj (Option.some.inj step) <;>
        exact .kept keeps
    | emit e next =>
      simp only [workStep?] at step
      cases accepted : f.bus.accept e with
      | error fault =>
        simp only [accepted] at step
        obtain ⟨-, rfl⟩ := Prod.mk.inj (Option.some.inj step)
        exact .kept (.refl _)
      | ok r =>
        simp only [accepted] at step
        obtain ⟨-, rfl⟩ := Prod.mk.inj (Option.some.inj step)
        obtain ⟨-, -, bus⟩ := Bus.accept_ok accepted
        rw [bus]
        exact .kept (.refl _)
    | claim id next =>
      obtain ⟨-, rfl⟩ := Prod.mk.inj (Option.some.inj step)
      exact .kept (keeps_claim _ id)
    | dropWriter | dropReader =>
      obtain ⟨-, rfl⟩ := Prod.mk.inj (Option.some.inj step)
      exact .kept (keeps_change fun c _ => by simp)
    | stall => simp [workStep?] at step
    | finish | act | pause | interrupt | spawn =>
      obtain ⟨-, rfl⟩ := Prod.mk.inj (Option.some.inj step)
      exact .kept (.refl _)
  | asleep ends w =>
    simp only [step?] at step
    split at step
    · obtain ⟨-, rfl⟩ := Prod.mk.inj (Option.some.inj step)
      exact .kept (.refl _)
    · cases step
  | emitting e next =>
    simp only [step?] at step
    split at step
    · obtain ⟨-, rfl⟩ := Prod.mk.inj (Option.some.inj step)
      exact .kept (.refl _)
    · obtain ⟨⟨e', bus⟩, served, same⟩ := Option.map_eq_some_iff.mp step
      obtain ⟨-, rfl⟩ := Prod.mk.inj same
      rw [(Bus.serves_of_emitStep? served).streams]
      exact .kept (.refl _)
  | writing chunk next =>
    have keeps := f.bus.streams.keeps_send chunk
    simp only [step?] at step
    rcases sent : f.bus.streams.send chunk with ⟨w, streams⟩
    rw [sent] at keeps
    cases w <;> simp only [sent, onStreams, onBus, reduceCtorEq] at step <;>
      obtain ⟨-, rfl⟩ := Prod.mk.inj (Option.some.inj step) <;>
      exact .kept keeps

theorem Dispatcher.grows_step? {f f' : Floor σ} {d d' : Dispatcher σ}
    (step : d.step? f = some (d', f')) :
    f.bus.streams.Grows f.bus.policy.streamCapacity f'.bus.streams := by
  rw [step?] at step
  split at step
  · split at step
    · rename_i taken
      obtain ⟨-, rfl⟩ := Prod.mk.inj (Option.some.inj step)
      obtain ⟨m, rest, -, -, bus⟩ := Bus.take?_eq_some taken
      rw [bus]
      exact .kept (.refl _)
    · split at step
      · obtain ⟨-, rfl⟩ := Prod.mk.inj (Option.some.inj step)
        exact .kept (.refl _)
      · cases step
  · split at step
    · cases step
    · rename_i work
      obtain ⟨-, rfl⟩ := Prod.mk.inj (Option.some.inj step)
      exact Activity.grows_step? work
    · rename_i work
      have grown := Activity.grows_step? work
      obtain ⟨-, rfl⟩ := Prod.mk.inj (Option.some.inj step)
      exact grown
    · rename_i delivery _ _ _ e f₁ work
      have grown := Activity.grows_step? work
      obtain ⟨-, rfl⟩ := Prod.mk.inj (Option.some.inj step)
      have same : (f₁.bus.fail f₁.clock d.name delivery e).streams = f₁.bus.streams := by
        rw [Bus.fail]
        split <;> rfl
      rw [same]
      exact grown
    · rename_i work
      have grown := Activity.grows_step? work
      obtain ⟨-, rfl⟩ := Prod.mk.inj (Option.some.inj step)
      exact grown
  · cases step

theorem Exchange.grows_step? {s s' : Exchange σ} {m : Move} (step : s.step? m = some s') :
    s.bus.streams.Grows s.bus.policy.streamCapacity s'.bus.streams := by
  cases m with
  | dispatcher i =>
    obtain ⟨d, -, step⟩ := Option.bind_eq_some_iff.mp step
    obtain ⟨⟨d', f'⟩, served, rfl⟩ := Option.map_eq_some_iff.mp step
    exact Dispatcher.grows_step? served
  | task i =>
    obtain ⟨a, -, step⟩ := Option.bind_eq_some_iff.mp step
    obtain ⟨⟨stride, f'⟩, worked, rfl⟩ := Option.map_eq_some_iff.mp step
    have grown := Activity.grows_step? worked
    cases stride <;> exact grown
  | sweepTick i =>
    obtain ⟨ticks, -, rfl⟩ := Option.map_eq_some_iff.mp step
    exact .kept (Streams.keeps_map fun c => Channel.capacity_clean _ _)
  | requeue =>
    obtain ⟨bus, requeued, rfl⟩ := Option.map_eq_some_iff.mp step
    have same := (Bus.requeues_of_requeue? requeued).streams
    exact same ▸ .kept (.refl _)
  | expire =>
    obtain ⟨bus, expired, rfl⟩ := Option.map_eq_some_iff.mp step
    rw [Bus.expire?] at expired
    split at expired
    · cases expired
    · obtain rfl := Option.some.inj expired
      exact .kept (.refl _)
  | retryTick i =>
    obtain ⟨ticks, -, rfl⟩ := Option.map_eq_some_iff.mp step
    exact .kept (.refl _)
  | wait | interrupt =>
    obtain rfl := Option.some.inj step
    exact .kept (.refl _)
  | closing =>
    rw [step?, closingStep?] at step
    split at step
    · cases step
    · obtain ⟨-, step⟩ := Option.ite_none_right_eq_some.mp step
      obtain rfl := Option.some.inj step
      exact .kept (.refl _)
    · split at step
      · obtain rfl := Option.some.inj step
        exact .kept (Streams.keeps_map fun c => Channel.capacity_truncate)
      · split at step
        · obtain rfl := Option.some.inj step
          exact .kept (.refl _)
        · obtain ⟨-, step⟩ := Option.ite_none_right_eq_some.mp step
          obtain rfl := Option.some.inj step
          exact .kept (.refl _)
    · obtain ⟨-, step⟩ := Option.ite_none_right_eq_some.mp step
      obtain rfl := Option.some.inj step
      exact .kept (.refl _)
    · cases step

namespace Audit

end Audit

end Pipeworks
