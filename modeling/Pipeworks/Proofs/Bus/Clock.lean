import Mathlib.Data.List.Induction
import Pipeworks.Proofs.Bus.Conservation

/-!
# The times of a history

The clock of a schedule stands still but for the acts that wait, so its readings never decrease. With
them every note of a history gets the time at which it was made. A delivery fails once for each attempt
that ends in a failure, at the time of the note that says so.
-/

namespace Pipeworks

variable {σ : Type}

/-! ## The clock -/

/-- How long a move takes. -/
def Move.elapsed : Move → Nat
  | .wait ms => ms
  | _ => 0

/-- How long an act takes. -/
def Act.elapsed : Act σ → Nat
  | .move m => m.elapsed
  | _ => 0

theorem Activity.clock_of_workStep? {f f' : Floor σ} {w : Work σ} {stride : Stride σ}
    (h : Activity.workStep? f w = some (stride, f')) : f'.clock = f.clock := by
  cases w with
  | emit e next =>
    simp only [workStep?] at h
    split at h <;> obtain ⟨-, rfl⟩ := Prod.mk.inj (Option.some.inj h) <;> rfl
  | stall => simp [workStep?] at h
  | openStream next =>
    simp only [workStep?] at h
    split at h <;> obtain ⟨-, rfl⟩ := Prod.mk.inj (Option.some.inj h) <;> rfl
  | write id data isFinal next =>
    simp only [workStep?] at h
    split at h <;> obtain ⟨-, rfl⟩ := Prod.mk.inj (Option.some.inj h) <;> rfl
  | drain id output collected =>
    simp only [workStep?] at h
    split at h
    · simp at h
    · obtain ⟨-, rfl⟩ := Prod.mk.inj (Option.some.inj h)
      rfl
    · obtain ⟨-, rfl⟩ := Prod.mk.inj (Option.some.inj h)
      rfl
  | finish | act | pause | interrupt | dropWriter | claim | dropReader | spawn =>
    simp only [workStep?, onStreams, onBus] at h
    obtain ⟨-, rfl⟩ := Prod.mk.inj (Option.some.inj h)
    rfl

theorem Activity.clock_of_step? {f f' : Floor σ} {a : Activity σ} {stride : Stride σ}
    (h : a.step? f = some (stride, f')) : f'.clock = f.clock := by
  cases a with
  | running w => exact clock_of_workStep? h
  | asleep ends w =>
    simp only [step?] at h
    split at h
    · obtain ⟨-, rfl⟩ := Prod.mk.inj (Option.some.inj h)
      rfl
    · simp at h
  | emitting e next =>
    simp only [step?] at h
    split at h
    · obtain ⟨-, rfl⟩ := Prod.mk.inj (Option.some.inj h)
      rfl
    · obtain ⟨r, -, h⟩ := Option.map_eq_some_iff.mp h
      obtain ⟨-, rfl⟩ := Prod.mk.inj h
      rfl
  | writing chunk next =>
    simp only [step?] at h
    split at h
    · simp at h
    · obtain ⟨-, rfl⟩ := Prod.mk.inj (Option.some.inj h)
      rfl
    · obtain ⟨-, rfl⟩ := Prod.mk.inj (Option.some.inj h)
      rfl

theorem Dispatcher.clock_of_step? {f f' : Floor σ} {d d' : Dispatcher σ}
    (h : d.step? f = some (d', f')) : f'.clock = f.clock := by
  rw [step?] at h
  split at h
  · split at h
    · obtain ⟨-, rfl⟩ := Prod.mk.inj (Option.some.inj h)
      rfl
    · split at h
      · obtain ⟨-, rfl⟩ := Prod.mk.inj (Option.some.inj h)
        rfl
      · simp at h
  · rename_i x a post
    cases step : a.step? f with
    | none => simp [step] at h
    | some r =>
      obtain ⟨stride, f₁⟩ := r
      rw [← Activity.clock_of_step? step]
      cases stride with
      | on a' =>
        simp only [step] at h
        obtain ⟨-, rfl⟩ := Prod.mk.inj (Option.some.inj h)
        rfl
      | ended o =>
        cases o <;> simp only [step] at h <;> obtain ⟨-, rfl⟩ := Prod.mk.inj (Option.some.inj h) <;>
          rfl
  · simp at h

theorem Exchange.clock_of_workOn? {s s' : Exchange σ} {i : Nat} {a : Activity σ}
    (h : s.workOn? i a = some s') : s'.clock = s.clock := by
  obtain ⟨⟨stride, f⟩, step, rfl⟩ := Option.map_eq_some_iff.mp h
  have same := Activity.clock_of_step? step
  cases stride <;> exact same

theorem Exchange.clock_of_closingStep? {s s' : Exchange σ} (h : s.closingStep? = some s') :
    s'.clock = s.clock := by
  rw [closingStep?] at h
  split at h
  · simp at h
  · split at h
    · obtain rfl := Option.some.inj h
      rfl
    · simp at h
  · split at h
    · obtain rfl := Option.some.inj h
      rfl
    · split at h
      · obtain rfl := Option.some.inj h
        rfl
      · split at h
        · obtain rfl := Option.some.inj h
          rfl
        · simp at h
  · obtain ⟨-, h⟩ := Option.ite_none_right_eq_some.mp h
    obtain rfl := Option.some.inj h
    rfl
  · simp at h

/-- The clock goes on by what a move waits. -/
theorem Exchange.clock_of_step? {s s' : Exchange σ} {m : Move} (h : s.step? m = some s') :
    s'.clock = s.clock + m.elapsed := by
  cases m with
  | dispatcher i =>
    obtain ⟨d, found, h⟩ := Option.bind_eq_some_iff.mp h
    obtain ⟨⟨d', f'⟩, step, rfl⟩ := Option.map_eq_some_iff.mp h
    exact Dispatcher.clock_of_step? step
  | task i =>
    obtain ⟨a, -, h⟩ := Option.bind_eq_some_iff.mp h
    exact clock_of_workOn? h
  | retryTick i | sweepTick i =>
    obtain ⟨ticks, -, rfl⟩ := Option.map_eq_some_iff.mp h
    rfl
  | requeue | expire =>
    obtain ⟨bus, -, rfl⟩ := Option.map_eq_some_iff.mp h
    rfl
  | closing => exact clock_of_closingStep? h
  | wait ms | interrupt =>
    obtain rfl := Option.some.inj h
    rfl

namespace Audit

/-- The clock of a schedule shows how long its acts have taken. -/
theorem clock_act (s : Audit σ) (a : Act σ) :
    (s.act a).exchange.clock = s.exchange.clock + a.elapsed := by
  cases a with
  | subscribe name topics deliver =>
    simp only [act, subscribe]
    split
    · split
      · rename_i ok
        obtain ⟨bus, -, rfl⟩ := Exchange.subscribe_ok ok
        rfl
      · rfl
    · rfl
  | start | shutdown =>
    simp only [act]
    split <;> rfl
  | publish e =>
    simp only [act, publish]
    split <;> rfl
  | serve i =>
    simp only [act, serve]
    split
    · rfl
    · split
      · rfl
      · split <;> rfl
  | touch f => rfl
  | move m =>
    simp only [act, move]
    cases step : s.exchange.step? m with
    | none =>
      cases m with
      | wait ms => simp [Exchange.step?] at step
      | _ => rfl
    | some exchange => exact Exchange.clock_of_step? step

/-! ## Notes with their times -/

/-- The notes that an act makes, with the time. -/
def made (s : Audit σ) (a : Act σ) : List (Nat × Note) :=
  ((s.act a).history.drop s.history.length).map fun n => ((s.act a).exchange.clock, n)

/-- The notes that some acts make, each with its time. -/
def timed (s : Audit σ) : List (Act σ) → List (Nat × Note)
  | [] => []
  | a :: acts => s.made a ++ (s.act a).timed acts

/-- The history of a schedule with its times. -/
def chronicle (policy : Policy) (world : σ) (acts : List (Act σ)) : List (Nat × Note) :=
  (fresh policy world).timed acts

theorem timed_append (s : Audit σ) (acts more : List (Act σ)) :
    s.timed (acts ++ more) = s.timed acts ++ (acts.foldl act s).timed more := by
  induction acts generalizing s with
  | nil => rfl
  | cons a acts ih => rw [List.cons_append, timed, timed, ih, List.append_assoc, List.foldl_cons]

theorem chronicle_concat (policy : Policy) (world : σ) (acts : List (Act σ)) (a : Act σ) :
    chronicle policy world (acts ++ [a]) =
      chronicle policy world acts ++ (play policy world acts).made a := by
  rw [chronicle, timed_append, timed, timed, List.append_nil]
  rfl

/-- What holds of a fresh bus without notes and is kept by every act, holds of every bus and its
history with the times. -/
theorem chronicle_induction {policy : Policy} {world : σ} {P : Audit σ → List (Nat × Note) → Prop}
    (start : P (fresh policy world) [])
    (step : ∀ s h ns exchange callers, P s h → s.Steps ns exchange callers →
      s.exchange.clock ≤ exchange.clock →
      P ⟨exchange, callers, s.history ++ ns⟩ (h ++ ns.map (exchange.clock, ·)))
    (acts : List (Act σ)) : P (play policy world acts) (chronicle policy world acts) := by
  induction acts using List.reverseRecOn with
  | nil => exact start
  | append_singleton acts a ih =>
    obtain ⟨ns, exchange, callers, steps, next⟩ := (play policy world acts).steps_act a
    have onwards := Nat.le.intro ((play policy world acts).clock_act a).symm
    have made : (play policy world acts).made a = ns.map (exchange.clock, ·) := by
      rw [Audit.made, next, List.drop_left]
    rw [next] at onwards
    rw [chronicle_concat, play_concat, next, made]
    exact step _ _ ns exchange callers ih steps onwards

end Audit

/-! ## Failures -/

/-- The number of the attempt at a delivery that a note says has failed. -/
def Note.failure (k : Parcel) : Note → Option Nat
  | postponed r => if r.parcel = k then some r.attempts else none
  | gaveUp l => if l.parcel = k then some l.attempts else none
  | _ => none

/-- The failures of a delivery, each with its time and the number of the attempt. -/
def failures (k : Parcel) (h : List (Nat × Note)) : List (Nat × Nat) :=
  h.filterMap fun e => (e.2.failure k).map (e.1, ·)

theorem failures_append (k : Parcel) (h h' : List (Nat × Note)) :
    failures k (h ++ h') = failures k h ++ failures k h' :=
  List.filterMap_append

end Pipeworks
