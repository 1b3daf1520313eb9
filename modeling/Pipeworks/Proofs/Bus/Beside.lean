import Mathlib.Logic.Relation
import Pipeworks.Proofs.Bus.Hands
import Pipeworks.Proofs.Bus.Step

/-!
# Work at streams beside other work

What a step of some work does to the streams is what some hands do, as long as the work holds the ends of
the streams that it uses. `Beside` is work with the floor that it shares with everybody else and the tapes
of the streams. In a `Beside.Turn` either the work takes a step, or somebody else does something to the
streams that is not up to the work, or the rest of the floor changes.
-/

namespace Pipeworks

variable {σ : Type}

/-! ## Reads -/

namespace Traffic

variable {s : Traffic} {id : String} {c : Channel}

theorem act_notice (read : s.isRead id = true) :
    s.act (.notice id) = { s with streams := s.streams.notice id } := by
  rw [act, if_pos read]

/-- The hands that read the next chunk of a stream: without one, the reader looks again when it has
noticed whether the stream was cancelled. -/
def readHands (s : Streams) (id : String) : List Hand :=
  match (s.poll id).1 with
  | .pending => [.notice id, .poll id]
  | _ => [.poll id]

theorem mem_readHands {h : Hand} (mem : h ∈ readHands s.streams id) : h ≠ .dropReader id := by
  rw [readHands] at mem
  split at mem
  · rw [List.mem_cons, List.mem_singleton] at mem
    rcases mem with rfl | rfl <;> simp
  · obtain rfl := List.mem_singleton.mp mem
    simp

theorem foldl_readHands (read : s.isRead id = true) {r : ReadResult} {streams : Streams}
    (found : s.streams.read id = (r, streams)) (some : r ≠ .pending) :
    (readHands s.streams id).foldl act s =
      s.record id streams { s.tape id with results := (s.tape id).results ++ [r] } := by
  rw [Streams.read] at found
  rcases first : s.streams.poll id with ⟨r₀, streams₀⟩
  rw [first] at found
  rw [readHands, first]
  cases r₀ with
  | chunk | truncated | ended =>
    obtain ⟨rfl, rfl⟩ := Prod.mk.inj found
    exact act_poll read first some
  | pending =>
    obtain ⟨c, known, claimed⟩ := known_of_isRead read
    have same : streams₀ = s.streams := by
      rw [Streams.poll_of_get? known] at first
      obtain ⟨waits, rfl⟩ := Prod.mk.inj first
      have unchanged : (c.poll id).2 = c := Channel.eq_of_poll (Prod.ext waits rfl)
      rw [unchanged, Streams.set_self known]
    rw [same] at found
    have still : (s.act (.notice id)).isRead id = true := by
      rw [act_notice read, isRead, Streams.notice, Streams.get?_change, if_pos rfl, known]
      exact beq_iff_eq.mpr claimed
    rw [List.foldl_cons, List.foldl_cons, List.foldl_nil]
    rw [act_notice read] at still ⊢
    exact act_poll still found some

end Traffic

/-! ## The hands of work -/

namespace Activity

/-- What the next step of some work does to the streams. -/
def hands (f : Floor σ) : Activity σ → List Hand
  | .running (.openStream _) => [.start f.bus.policy.streamCapacity f.clock]
  | .running (.write id data isFinal _) => [.write id data isFinal]
  | .running (.dropWriter id _) => [.dropWriter id]
  | .running (.claim id _) => [.claim id]
  | .running (.drain id _ _) => Traffic.readHands f.bus.streams id
  | .running (.dropReader id _) => [.dropReader id]
  | .writing chunk _ => [.push chunk.stream, .finish chunk.stream]
  | _ => []

/-- Whether some work holds the ends of the streams that its next step uses. -/
def Holds (s : Traffic) : Activity σ → Prop
  | .running (.write id _ _ _) | .running (.dropWriter id _) => s.isFree id = true
  | .running (.drain id _ _) | .running (.dropReader id _) => s.isRead id = true
  | .writing chunk _ => (s.tape chunk.stream).writing = some (chunk, false)
  | _ => True

end Activity

namespace Traffic

variable {s : Traffic} {f f' : Floor σ}

theorem act_write {id : String} {data : Json} {isFinal : Bool} {chunk : Chunk} {streams : Streams}
    (free : s.isFree id = true) (ok : s.streams.number id data isFinal = .ok (chunk, streams)) :
    s.act (.write id data isFinal) =
      s.record id streams { s.tape id with writing := some (chunk, false) } := by
  rw [act, write, if_pos free, ok]

/-- The write of a chunk succeeds. -/
theorem act_send {chunk : Chunk} {streams : Streams}
    (writing : (s.tape chunk.stream).writing = some (chunk, false))
    (sent : s.streams.send chunk = (.sent, streams)) :
    (s.act (.push chunk.stream)).act (.finish chunk.stream) =
      s.record chunk.stream streams
        { s.tape chunk.stream with
          writing := none
          sent := (s.tape chunk.stream).sent ++ [chunk]
          written := (s.tape chunk.stream).written ++ [chunk] } := by
  rw [Streams.send] at sent
  split at sent
  · rename_i streams₀ pushed
    obtain ⟨-, rfl⟩ := Prod.mk.inj sent
    have first : s.act (.push chunk.stream) = s.record chunk.stream streams₀
        { s.tape chunk.stream with
          writing := some (chunk, true)
          sent := (s.tape chunk.stream).sent ++ [chunk] } := by
      simp only [act, push, writing, pushed]
    rw [first]
    simp only [act, finish, record, Function.update_self, Function.update_idem]
  · rename_i other
    exact absurd sent (by rintro h; exact other _ h)

/-- The write of a chunk is refused. -/
theorem act_refused {chunk : Chunk} {e : Fault} {streams : Streams}
    (writing : (s.tape chunk.stream).writing = some (chunk, false))
    (refused : s.streams.send chunk = (.refused e, streams)) :
    (s.act (.push chunk.stream)).act (.finish chunk.stream) =
      s.record chunk.stream streams { s.tape chunk.stream with writing := none } := by
  rw [Streams.send] at refused
  split at refused
  · simp at refused
  · have first : s.act (.push chunk.stream) =
        s.record chunk.stream streams { s.tape chunk.stream with writing := none } := by
      simp only [act, push, writing, refused]
    rw [first]
    simp only [act, finish, record, Function.update_self]

/-- A step of some work does to the streams what its hands do. -/
theorem streams_of_step? {a : Activity σ} {stride : Stride σ} (same : s.streams = f.bus.streams)
    (holds : a.Holds s) (step : a.step? f = some (stride, f')) :
    ((a.hands f).foldl act s).streams = f'.bus.streams := by
  cases a with
  | running w =>
    rw [Activity.step?] at step
    cases w with
    | drain id output collected =>
      rcases found : f.bus.streams.read id with ⟨r, streams⟩
      have read := foldl_readHands holds (same ▸ found)
      rw [Activity.hands, ← same]
      cases r <;>
        simp only [Activity.workStep?, Activity.onStreams, Activity.onBus, found, reduceCtorEq] at step <;>
        obtain ⟨-, rfl⟩ := Prod.mk.inj (Option.some.inj step) <;>
        exact congrArg Traffic.streams (read (by simp))
    | write id data isFinal next =>
      rw [Activity.workStep?, ← same] at step
      rw [Activity.hands, List.foldl_cons, List.foldl_nil]
      cases ok : s.streams.number id data isFinal with
      | error e =>
        rw [ok] at step
        obtain ⟨-, rfl⟩ := Prod.mk.inj (Option.some.inj step)
        simp only [act, write, ok]
        split <;> exact same
      | ok r =>
        rw [ok] at step
        obtain ⟨-, rfl⟩ := Prod.mk.inj (Option.some.inj step)
        rw [act_write holds ok]
        rfl
    | openStream next =>
      rw [Activity.workStep?] at step
      rw [Activity.hands, List.foldl_cons, List.foldl_nil, act, same]
      cases ok : f.bus.streams.start f.bus.policy.streamCapacity f.clock <;>
        rw [ok] at step <;>
        obtain ⟨-, rfl⟩ := Prod.mk.inj (Option.some.inj step)
      · rfl
      · exact same
      · exact same
    | claim id next =>
      rw [Activity.workStep?, ← same] at step
      rw [Activity.hands, List.foldl_cons, List.foldl_nil, act, claim]
      rcases ok : s.streams.claim id with ⟨r, streams⟩
      rw [ok] at step
      obtain ⟨-, rfl⟩ := Prod.mk.inj (Option.some.inj step)
      cases r with
      | ok => rfl
      | error e => exact (Streams.eq_of_claim ok).symm
    | dropWriter id w =>
      have free : s.isFree id = true := holds
      obtain ⟨-, rfl⟩ := Prod.mk.inj (Option.some.inj step)
      rw [Activity.hands, List.foldl_cons, List.foldl_nil, act, dropWriter, if_pos free, same]
    | dropReader id w =>
      have read : s.isRead id = true := holds
      obtain ⟨-, rfl⟩ := Prod.mk.inj (Option.some.inj step)
      rw [Activity.hands, List.foldl_cons, List.foldl_nil, act, if_pos read, same]
    | emit e next =>
      rw [Activity.workStep?] at step
      cases ok : f.bus.accept e with
      | error e =>
        rw [ok] at step
        obtain ⟨-, rfl⟩ := Prod.mk.inj (Option.some.inj step)
        exact same
      | ok r =>
        rw [ok] at step
        obtain ⟨-, rfl⟩ := Prod.mk.inj (Option.some.inj step)
        rw [Bus.accept] at ok
        split at ok
        · simp at ok
        · obtain rfl := Except.ok.inj ok
          exact same
    | stall => simp [Activity.workStep?] at step
    | finish | act | pause | interrupt | spawn =>
      obtain ⟨-, rfl⟩ := Prod.mk.inj (Option.some.inj step)
      exact same
  | asleep ends w =>
    rw [Activity.step?] at step
    split at step
    · obtain ⟨-, rfl⟩ := Prod.mk.inj (Option.some.inj step)
      exact same
    · simp at step
  | emitting e next =>
    rw [Activity.step?] at step
    split at step
    · obtain ⟨-, rfl⟩ := Prod.mk.inj (Option.some.inj step)
      exact same
    · obtain ⟨⟨e', bus⟩, served, step⟩ := Option.map_eq_some_iff.mp step
      obtain ⟨-, rfl⟩ := Prod.mk.inj step
      have serves := Bus.serves_of_emitStep? served
      generalize f.bus.emitNotes e = ns at serves
      cases serves <;> exact same
  | writing chunk next =>
    rcases sent : f.bus.streams.send chunk with ⟨w, streams⟩
    rw [Activity.step?, sent] at step
    rw [Activity.hands, List.foldl_cons, List.foldl_cons, List.foldl_nil]
    cases w with
    | full => simp at step
    | sent =>
      obtain ⟨-, rfl⟩ := Prod.mk.inj (Option.some.inj step)
      rw [act_send holds (same ▸ sent)]
      rfl
    | refused e =>
      obtain ⟨-, rfl⟩ := Prod.mk.inj (Option.some.inj step)
      rw [act_refused holds (same ▸ sent)]
      rfl

end Traffic

/-! ## Turns -/

/-- Some work with the floor that it shares with everybody else. -/
structure Beside (σ : Type) where
  floor : Floor σ
  /-- What is recorded of each stream. -/
  tape : String → Tape
  /-- How the work goes on, or how it has ended. -/
  work : Stride σ
  /-- How many steps the work has taken. -/
  taken : Nat

namespace Beside

/-- The streams with what is recorded of them. -/
def traffic (s : Beside σ) : Traffic := ⟨s.floor.bus.streams, s.tape⟩

/-- Something that happens. Some hands are up to the work alone, and so is a part of the world. -/
inductive Turn {α : Type} (own : Hand → Bool) (part : σ → α) (s : Beside σ) : Beside σ → Prop where
  /-- The work takes a step. -/
  | stepped {a : Activity σ} {stride : Stride σ} {floor : Floor σ} (on : s.work = .on a)
      (step : a.step? s.floor = some (stride, floor)) :
      Turn own part s
        ⟨floor, ((a.hands s.floor).foldl Traffic.act s.traffic).tape, stride, s.taken + 1⟩
  /-- Somebody else does something to the streams. -/
  | handled {h : Hand} (other : own h = false) :
      Turn own part s
        { s with
          floor := { s.floor with bus := { s.floor.bus with streams := (s.traffic.act h).streams } }
          tape := (s.traffic.act h).tape }
  /-- Something else changes. -/
  | elsewhere {floor : Floor σ} (streams : floor.bus.streams = s.floor.bus.streams)
      (same : part floor.world = part s.floor.world) :
      Turn own part s { s with floor }

/-- What may have become of some work after any number of turns. -/
def Reaches {α : Type} (own : Hand → Bool) (part : σ → α) : Beside σ → Beside σ → Prop :=
  Relation.ReflTransGen (Turn own part)

/-- A step of the work, as a step of the streams. -/
theorem traffic_stepped {s : Beside σ} {a : Activity σ} {stride : Stride σ} {floor : Floor σ}
    (holds : a.Holds s.traffic) (step : a.step? s.floor = some (stride, floor)) :
    traffic ⟨floor, ((a.hands s.floor).foldl Traffic.act s.traffic).tape, stride, s.taken + 1⟩ =
      (a.hands s.floor).foldl Traffic.act s.traffic := by
  rw [traffic, ← Traffic.streams_of_step? (s := s.traffic) rfl holds step]

/-- Somebody does something to the streams, or else the work takes a step if it can. -/
def go (s : Beside σ) : Option Hand → Beside σ
  | some h =>
    { s with
      floor := { s.floor with bus := { s.floor.bus with streams := (s.traffic.act h).streams } }
      tape := (s.traffic.act h).tape }
  | none =>
    match s.work with
    | .ended _ => s
    | .on a =>
      match a.step? s.floor with
      | none => s
      | some (stride, floor) =>
        ⟨floor, ((a.hands s.floor).foldl Traffic.act s.traffic).tape, stride, s.taken + 1⟩

theorem reaches_go {α : Type} {own : Hand → Bool} {part : σ → α} (s : Beside σ)
    {doings : List (Option Hand)} (others : ∀ h, some h ∈ doings → own h = false) :
    Reaches own part s (doings.foldl go s) := by
  induction doings using List.reverseRecOn with
  | nil => exact .refl
  | append_singleton doings d ih =>
    rw [List.foldl_append, List.foldl_cons, List.foldl_nil]
    have before := ih fun h hh => others h (List.mem_append_left _ hh)
    cases d with
    | some h => exact before.tail (.handled (others h (List.mem_append_right _ (List.mem_singleton_self _))))
    | none =>
      rw [go]
      split
      · exact before
      · rename_i a on
        split
        · exact before
        · rename_i step
          exact before.tail (.stepped on step)

end Beside

end Pipeworks
