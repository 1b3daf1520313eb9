import Pipeworks.Lifecycle.BringUp

/-!
# Turns of tasks

A schedule of a bring-up is a list of positions: one after another the tasks there
take a step, unless they have to wait. `Turn` lists everything that one step can
be for a task and its component. What a step does to the permits and the lane
follows from the phase calls that it begins and ends.
-/

namespace Pipeworks

variable {σ : Type}

/-- The beginning or the end of a phase call of the component at a position. -/
inductive CallNote where
  | begun (i : Nat) (p : Phase) (h : Half)
  | returned (i : Nat) (p : Phase) (h : Half) (o : Outcome Unit)

/-- What all tasks share. -/
structure Shared where
  permits : Nat
  laneFree : Bool
  dispatched : Nat

/-- What is shared after a phase call began or ended. -/
def Shared.note (s : Shared) : CallNote → Shared
  | .begun _ _ .parallel => { s with permits := s.permits - 1, dispatched := s.dispatched + 1 }
  | .begun _ _ .sequential => { s with laneFree := false }
  | .returned _ _ .parallel _ => { s with permits := s.permits + 1 }
  | .returned _ _ .sequential _ => { s with laneFree := true }

/-- What a phase call reports and comes to; without a call there is nothing to fail. -/
def Component.reply (c : Component σ) (p : Phase) (h : Half) (world : σ) :
    List Nat × Outcome Unit :=
  match c.phaseCall p h with
  | none => ([], .ok ())
  | some f => ((f world).reports, (f world).outcome)

namespace BringUp

/-- What all tasks share. -/
def shared (b : BringUp σ) : Shared := ⟨b.permits, b.laneFree, b.dispatched⟩

/-- The phase call that a step of the task at a position begins or ends. -/
def callNotes (b : BringUp σ) (i : Nat) : List CallNote :=
  match b.tasks[i]? with
  | some (.wanting p h) => [.begun i p h]
  | some (.calling p h [] o) => [.returned i p h o]
  | _ => []

/-- One turn of the task of a component: the phase call it begins or ends, the stage
of the component and the task after it. -/
inductive Turn (b : BringUp σ) (i : Nat) (e : Entry σ) :
    Task → List CallNote → Stage → Task → Prop where
  | refused {p} (reason : String) (bars : e.stage.canBecome (.running p) = false) :
      Turn b i e (.entering p) [] e.stage (.failing p reason)
  | entered {p h} (may : e.stage.canBecome (.running p) = true)
      (has : e.has (Half.capability p h) = true)
      (first : h = .sequential → e.has (Half.capability p .parallel) = false) :
      Turn b i e (.entering p) [] (.running p) (.wanting p h)
  | skipped {p} (may : e.stage.canBecome (.running p) = true)
      (none : ∀ h, e.has (Half.capability p h) = false) :
      Turn b i e (.entering p) [] (.running p) (.leaving p)
  | called {p h} (free : b.mayCall h = true) :
      Turn b i e (.wanting p h) [.begun i p h] e.stage
        (.calling p h (e.component.reply p h b.world).1 (e.component.reply p h b.world).2)
  | reported {p h percent reports o} :
      Turn b i e (.calling p h (percent :: reports) o) [] e.stage (.calling p h reports o)
  | broken {p h o reason} (failure : phaseFailure? o = some reason) :
      Turn b i e (.calling p h [] o) [.returned i p h o] e.stage (.failing p reason)
  | halved {p} (more : e.has (Half.capability p .sequential) = true) :
      Turn b i e (.calling p .parallel [] (.ok ())) [.returned i p .parallel (.ok ())] e.stage
        (.wanting p .sequential)
  | ended {p h} (last : h = .parallel → e.has (Half.capability p .sequential) = false) :
      Turn b i e (.calling p h [] (.ok ())) [.returned i p h (.ok ())] e.stage (.leaving p)
  | barred {p} (reason : String) (bars : e.stage.canBecome (.done p) = false) :
      Turn b i e (.leaving p) [] e.stage (.failing p reason)
  | initialized (may : e.stage.canBecome .initialized = true) :
      Turn b i e (.leaving .init) [] .initialized (.waiting e.dependencies)
  | started (may : e.stage.canBecome .started = true) :
      Turn b i e (.leaving .start) [] .started .over
  | ready : Turn b i e (.waiting []) [] e.stage (.entering .start)
  | passed {name left}
      (fine : ∀ d, Context.find? b.entries name = some d → d.stage = .started) :
      Turn b i e (.waiting (name :: left)) [] e.stage (.waiting left)
  | blocked {name left d reason} (found : Context.find? b.entries name = some d)
      (failed : d.stage = .failed reason) :
      Turn b i e (.waiting (name :: left)) [] e.stage
        (.failing .start ("dependency " ++ inQuotes name ++ " failed"))
  | failed {p reason} (may : e.stage.isFinal = false) :
      Turn b i e (.failing p reason) [] (.failed reason) .over
  | tooLate {p reason} (final : e.stage.isFinal = true) :
      Turn b i e (.failing p reason) [] e.stage .over

/-- A step of the task `t` of the component `e`: nothing else changes. -/
structure Steps (b : BringUp σ) (i : Nat) (e : Entry σ) (t : Task) (ns : List CallNote)
    (stage : Stage) (t' : Task) (b' : BringUp σ) : Prop where
  entry : b.entries[i]? = some e
  task : b.tasks[i]? = some t
  turn : Turn b i e t ns stage t'
  entries : b'.entries = b.entries.set i { e with stage }
  tasks : b'.tasks = b.tasks.set i t'
  shared : b'.shared = ns.foldl Shared.note b.shared

end BringUp

theorem Stage.advance_cases (name : String) (current next : Stage) :
    (current.canBecome next = true ∧ Stage.advance name current next = .ok next) ∨
    (current.canBecome next = false ∧ ∃ fault, Stage.advance name current next = .error fault) := by
  rw [Stage.advance]
  cases may : current.canBecome next with
  | true => exact .inl ⟨rfl, rfl⟩
  | false => exact .inr ⟨rfl, _, rfl⟩

theorem Stage.canBecome_failed (s : Stage) (reason : String) :
    s.canBecome (.failed reason) = !s.isFinal := by
  cases s <;> rfl

theorem phaseFailure?_eq_none {o : Outcome Unit} (h : phaseFailure? o = none) : o = .ok () := by
  cases o with
  | ok => rfl
  | failed | panicked => simp [phaseFailure?] at h

namespace BringUp

variable {b b' : BringUp σ} {i : Nat} {e : Entry σ} {t : Task}

theorem entries_same (entry : b.entries[i]? = some e) :
    b.entries = b.entries.set i { e with stage := e.stage } := by
  obtain ⟨inside, rfl⟩ := List.getElem?_eq_some_iff.mp entry
  exact (List.set_getElem_self inside).symm

theorem steps_of_enter (entry : b.entries[i]? = some e) {p : Phase}
    (task : b.tasks[i]? = some (.entering p)) :
    ∃ stage t', b.Steps i e (.entering p) [] stage t' (b.enter i e p) := by
  rcases Stage.advance_cases e.name e.stage (.running p) with ⟨may, next⟩ | ⟨bars, fault, next⟩
  · simp only [enter, next]
    by_cases parallel : e.has (Half.capability p .parallel) = true
    · rw [if_pos parallel]
      exact ⟨_, _, entry, task, .entered may parallel nofun, rfl, rfl, rfl⟩
    · rw [if_neg parallel]
      have none : e.has (Half.capability p .parallel) = false := by simpa using parallel
      by_cases sequential : e.has (Half.capability p .sequential) = true
      · rw [if_pos sequential]
        exact ⟨_, _, entry, task, .entered may sequential fun _ => none, rfl, rfl, rfl⟩
      · rw [if_neg sequential]
        refine ⟨_, _, entry, task, .skipped may fun h => ?_, rfl, rfl, rfl⟩
        cases h with
        | parallel => exact none
        | sequential => simpa using sequential
  · simp only [enter, next]
    exact ⟨_, _, entry, task, .refused _ bars, entries_same entry, rfl, rfl⟩

theorem steps_of_call (entry : b.entries[i]? = some e) {p : Phase} {h : Half}
    (task : b.tasks[i]? = some (.wanting p h)) (free : b.mayCall h = true) :
    ∃ stage t', b.Steps i e (.wanting p h) [.begun i p h] stage t' (b.call i e p h) := by
  have turn := Turn.called (e := e) (i := i) (p := p) free
  have taken : (b.take h).shared = b.shared.note (.begun i p h) := by cases h <;> rfl
  have entries : (b.take h).entries = b.entries := by cases h <;> rfl
  have tasks (t : Task) : (b.take h).tasks.set i t = b.tasks.set i t := by cases h <;> rfl
  have world : (b.take h).world = b.world := by cases h <;> rfl
  rw [Component.reply] at turn
  rw [call]
  cases made : e.component.phaseCall p h with
  | none =>
    simp only [made] at turn ⊢
    exact ⟨_, _, entry, task, turn, entries.trans (entries_same entry),
      tasks _, taken⟩
  | some f =>
    simp only [made, world] at turn ⊢
    exact ⟨_, _, entry, task, turn, entries.trans (entries_same entry),
      tasks _, taken⟩

theorem steps_of_finish (entry : b.entries[i]? = some e) {p : Phase} {h : Half} {o : Outcome Unit}
    (task : b.tasks[i]? = some (.calling p h [] o)) :
    ∃ stage t', b.Steps i e (.calling p h [] o) [.returned i p h o] stage t'
      (b.finish i e p h o) := by
  have given : (b.release h).shared = b.shared.note (.returned i p h o) := by cases h <;> rfl
  have entries : (b.release h).entries = b.entries := by cases h <;> rfl
  have tasks (t : Task) : (b.release h).tasks.set i t = b.tasks.set i t := by cases h <;> rfl
  have same := entries.trans (entries_same entry)
  simp only [finish]
  cases failure : phaseFailure? o with
  | some reason =>
    exact ⟨_, _, entry, task, .broken failure, same, tasks _, given⟩
  | none =>
    obtain rfl := phaseFailure?_eq_none failure
    cases h with
    | sequential =>
      exact ⟨_, _, entry, task, .ended nofun, same, tasks _, given⟩
    | parallel =>
      dsimp only
      by_cases more : e.has (Half.capability p .sequential) = true
      · rw [if_pos more]
        exact ⟨_, _, entry, task, .halved more, same, tasks _, given⟩
      · rw [if_neg more]
        exact ⟨_, _, entry, task, .ended fun _ => by simpa using more, same,
          tasks _, given⟩

theorem steps_of_leave (entry : b.entries[i]? = some e) {p : Phase}
    (task : b.tasks[i]? = some (.leaving p)) :
    ∃ stage t', b.Steps i e (.leaving p) [] stage t' (b.leave i e p) := by
  rcases Stage.advance_cases e.name e.stage (.done p) with ⟨may, next⟩ | ⟨bars, fault, next⟩
  · simp only [leave, next]
    cases p with
    | init => exact ⟨_, _, entry, task, .initialized may, rfl, rfl, rfl⟩
    | start => exact ⟨_, _, entry, task, .started may, rfl, rfl, rfl⟩
  · simp only [leave, next]
    exact ⟨_, _, entry, task, .barred _ bars, entries_same entry, rfl, rfl⟩

theorem steps_of_fail (entry : b.entries[i]? = some e) {p : Phase} {reason : String}
    (task : b.tasks[i]? = some (.failing p reason)) :
    ∃ stage t', b.Steps i e (.failing p reason) [] stage t' (b.fail i e p reason) := by
  have final := e.stage.canBecome_failed reason
  rcases Stage.advance_cases e.name e.stage (.failed reason) with ⟨may, next⟩ | ⟨bars, fault, next⟩
  · simp only [fail, next]
    exact ⟨_, _, entry, task, .failed (by simpa [may] using final.symm), rfl, rfl, rfl⟩
  · simp only [fail, next]
    exact ⟨_, _, entry, task, .tooLate (by simpa [bars] using final.symm), entries_same entry,
      rfl, rfl⟩

/-- Every step of a task is a turn. -/
theorem steps_of_step? (step : b.step? i = some b') :
    ∃ e t stage t', b.Steps i e t (b.callNotes i) stage t' b' := by
  rw [step?] at step
  cases entry : b.entries[i]? with
  | none => simp [entry] at step
  | some e =>
    cases task : b.tasks[i]? with
    | none => simp [entry, task] at step
    | some t =>
      simp only [entry, task, callNotes] at step ⊢
      refine ⟨e, t, ?_⟩
      cases t with
      | entering p =>
        obtain rfl := Option.some.inj step
        exact steps_of_enter entry task
      | wanting p h =>
        simp only [stepOf?] at step
        split at step
        · rename_i free
          obtain rfl := Option.some.inj step
          exact steps_of_call entry task free
        · simp at step
      | calling p h reports o =>
        cases reports with
        | cons percent reports =>
          obtain rfl := Option.some.inj step
          exact ⟨_, _, entry, task, .reported, entries_same entry, rfl, rfl⟩
        | nil =>
          obtain rfl := Option.some.inj step
          exact steps_of_finish entry task
      | leaving p =>
        obtain rfl := Option.some.inj step
        exact steps_of_leave entry task
      | waiting left =>
        cases left with
        | nil =>
          obtain rfl := Option.some.inj step
          exact ⟨_, _, entry, task, .ready, entries_same entry, rfl, rfl⟩
        | cons name left =>
          simp only [stepOf?] at step
          cases found : Context.find? b.entries name with
          | none =>
            simp only [found] at step
            obtain rfl := Option.some.inj step
            exact ⟨_, _, entry, task, .passed (by simp [found]), entries_same entry, rfl, rfl⟩
          | some d =>
            simp only [found] at step
            cases stage : d.stage with
            | started =>
              simp only [stage] at step
              obtain rfl := Option.some.inj step
              exact ⟨_, _, entry, task, .passed (by simp [found, stage]), entries_same entry,
                rfl, rfl⟩
            | failed reason =>
              simp only [stage] at step
              obtain rfl := Option.some.inj step
              exact ⟨_, _, entry, task, .blocked found stage, entries_same entry, rfl, rfl⟩
            | _ => simp [stage] at step
      | failing p reason =>
        obtain rfl := Option.some.inj step
        exact steps_of_fail entry task
      | _ => simp [stepOf?] at step

end BringUp

/-- A bring-up with the phase calls that began and ended in it. -/
structure Ascent (σ : Type) where
  now : BringUp σ
  /-- All beginnings and ends of phase calls so far, the earliest first. -/
  calls : List CallNote

namespace Ascent

def step (a : Ascent σ) (i : Nat) : Ascent σ :=
  match a.now.step? i with
  | none => a
  | some b => ⟨b, a.calls ++ a.now.callNotes i⟩

/-- A bring-up after the tasks at some positions have taken their steps. -/
def play (entries : List (Entry σ)) (permits : Nat) (attached : Bool) (world : σ)
    (schedule : List Nat) : Ascent σ :=
  schedule.foldl step ⟨BringUp.begin entries permits attached world, []⟩

/-- What holds at the beginning and is kept by every step holds always. -/
theorem play_induction {entries : List (Entry σ)} {permits : Nat} {attached : Bool} {world : σ}
    {P : Ascent σ → Prop} (start : P ⟨BringUp.begin entries permits attached world, []⟩)
    (step : ∀ a i e t ns stage t' b', P a → a.now.Steps i e t ns stage t' b' →
      P ⟨b', a.calls ++ ns⟩)
    (schedule : List Nat) : P (play entries permits attached world schedule) := by
  rw [play]
  generalize (⟨BringUp.begin entries permits attached world, []⟩ : Ascent σ) = a at start ⊢
  induction schedule generalizing a with
  | nil => exact start
  | cons i schedule ih =>
    refine ih (a.step i) ?_
    rw [Ascent.step]
    cases next : a.now.step? i with
    | none => exact start
    | some b =>
      obtain ⟨e, t, stage, t', steps⟩ := BringUp.steps_of_step? next
      exact step a i e t _ stage t' b start steps

end Ascent

end Pipeworks
