import Pipeworks.Proofs.Lifecycle.Safety

/-!
# A bring-up settles

Every step takes a task further or publishes one of the reports that its call has
left, so no schedule goes on for ever. And as long as some component is at a
stage that is not final, some task can step: a permit or the lane is withheld only
by a task in a call, and components wait only for earlier ones.
-/

namespace Pipeworks

variable {σ : Type}

/-! ## Sums over all tasks -/

/-- The sum of a quantity over all components and their tasks. -/
def tally (f : Entry σ → Task → Nat) : List (Entry σ) → List Task → Nat
  | e :: entries, t :: tasks => f e t + tally f entries tasks
  | _, _ => 0

/-- One component and its task change. -/
theorem tally_set (f : Entry σ → Task → Nat) {entries : List (Entry σ)} {tasks : List Task}
    {i : Nat} {e : Entry σ} {t : Task} (entry : entries[i]? = some e) (task : tasks[i]? = some t)
    (e' : Entry σ) (t' : Task) :
    tally f (entries.set i e') (tasks.set i t') + f e t = tally f entries tasks + f e' t' := by
  induction entries generalizing tasks i with
  | nil => simp at entry
  | cons first entries ih =>
    cases tasks with
    | nil => simp at task
    | cons top tasks =>
      cases i with
      | zero =>
        obtain rfl := Option.some.inj entry
        obtain rfl := Option.some.inj task
        simp only [List.set_cons_zero, tally]
        omega
      | succ i =>
        have rest := @ih tasks i entry task
        simp only [List.set_cons_succ, tally]
        omega

def Task.pending : Task → Nat
  | .calling _ _ reports _ => reports.length
  | _ => 0

namespace BringUp

theorem rank_eq (b : BringUp σ) :
    b.rank = tally (fun e t => Task.rank e.dependencies.length t) b.entries b.tasks := by
  rw [rank]
  generalize b.entries = entries
  generalize b.tasks = tasks
  induction entries generalizing tasks with
  | nil => rfl
  | cons e entries ih =>
    cases tasks with
    | nil => rfl
    | cons t tasks => exact congrArg (_ + ·) (ih tasks)

def pending (b : BringUp σ) : Nat := tally (fun _ t => t.pending) b.entries b.tasks

variable {b b' : BringUp σ} {i : Nat} {e : Entry σ} {t t' : Task} {ns : List CallNote}
  {stage : Stage}

theorem Turn.rank (turn : Turn b i e t ns stage t') :
    Task.rank e.dependencies.length t' < Task.rank e.dependencies.length t ∨
      (Task.rank e.dependencies.length t' = Task.rank e.dependencies.length t ∧
        t'.pending < t.pending) := by
  cases turn with
  | @reported p h => cases p <;> cases h <;> exact .inr ⟨rfl, Nat.lt_succ_self _⟩
  | @refused p | @skipped p | @barred p =>
    left
    cases p <;> simp only [Task.rank] <;> omega
  | @entered p h | @called p h | @broken p h | @ended p h =>
    left
    cases p <;> cases h <;> simp only [Task.rank] <;> omega
  | @halved p =>
    left
    cases p <;> simp only [Task.rank] <;> omega
  | _ =>
    left
    simp only [Task.rank, List.length_cons, List.length_nil]
    omega

/-- A step lowers the rank, or keeps it and leaves fewer reports. -/
theorem Steps.rank (steps : b.Steps i e t ns stage t' b') :
    b'.rank < b.rank ∨ (b'.rank = b.rank ∧ b'.pending < b.pending) := by
  have ranks := tally_set (fun e t => Task.rank e.dependencies.length t) steps.entry steps.task
    { e with stage } t'
  have reports := tally_set (fun _ t => t.pending) steps.entry steps.task { e with stage } t'
  rw [← steps.entries, ← steps.tasks] at ranks reports
  have turn := steps.turn.rank
  simp only [rank_eq, pending] at ranks reports ⊢
  omega

/-- Steps cannot go on for ever. -/
theorem wellFounded_step : WellFounded fun b' b : BringUp σ => ∃ i, b.step? i = some b' := by
  refine Subrelation.wf ?_
    (InvImage.wf (fun b : BringUp σ => (b.rank, b.pending)) (Prod.lex Nat.lt_wfRel Nat.lt_wfRel).wf)
  rintro b' b ⟨i, step⟩
  obtain ⟨e, t, stage, t', steps⟩ := steps_of_step? step
  rcases steps.rank with lower | ⟨same, fewer⟩
  · exact .left _ _ lower
  · change Prod.Lex _ _ (b'.rank, b'.pending) (b.rank, b.pending)
    rw [same]
    exact .right _ fewer

/-- There is no endless run. -/
theorem no_endless_run (run : Nat → BringUp σ) :
    ¬ ∀ n, ∃ i, (run n).step? i = some (run (n + 1)) := by
  intro forever
  have never (b : BringUp σ) : ∀ n, run n ≠ b := by
    induction b using wellFounded_step.induction with
    | _ b ih =>
      intro n here
      exact ih (run (n + 1)) (here ▸ forever n) (n + 1) rfl
  exact never (run 0) 0 rfl

end BringUp

/-! ## Components do not change otherwise -/

/-- A component as it was created. -/
def Entry.reset (e : Entry σ) : Entry σ := { e with stage := .created }

theorem BringUp.Steps.reset {b b' : BringUp σ} {i : Nat} {e : Entry σ} {t t' : Task}
    {ns : List CallNote} {stage : Stage} (steps : b.Steps i e t ns stage t' b') :
    b'.entries.map Entry.reset = b.entries.map Entry.reset := by
  obtain ⟨inside, rfl⟩ := List.getElem?_eq_some_iff.mp steps.entry
  rw [steps.entries, List.map_set]
  refine List.ext_getElem (by simp) ?_
  intro j _ inside'
  rw [List.getElem_set]
  split
  · rename_i here
    subst here
    rw [List.getElem_map]
    rfl
  · rfl

theorem Ascent.play_reset (entries : List (Entry σ)) (permits : Nat) (attached : Bool) (world : σ)
    (schedule : List Nat) :
    (play entries permits attached world schedule).now.entries.map Entry.reset =
      entries.map Entry.reset := by
  refine play_induction (P := fun a => a.now.entries.map Entry.reset = entries.map Entry.reset)
    rfl ?_ schedule
  intro a i e t ns stage t' b' same steps
  exact steps.reset.trans same

namespace Context

/-- Whatever a component depends on comes before it, or is not there at all. -/
def Ordered (entries : List (Entry σ)) : Prop :=
  ∀ i e, entries[i]? = some e → ∀ name ∈ e.dependencies,
    (∃ d ∈ entries, d.name = name) → ∃ d ∈ entries.take i, d.name = name

theorem Ordered.of_reset {entries entries' : List (Entry σ)} (ordered : Ordered entries)
    (same : entries'.map Entry.reset = entries.map Entry.reset) : Ordered entries' := by
  have names : entries'.map Entry.name = entries.map Entry.name := by
    have := congrArg (List.map Entry.name) same
    rwa [List.map_map, List.map_map] at this
  intro i e' entry' name hname present
  have here := congrArg (·[i]?) same
  simp only [List.getElem?_map, entry', Option.map_some] at here
  obtain ⟨e, entry, reset⟩ := Option.map_eq_some_iff.mp here.symm
  have dependencies : e.reset.dependencies = e'.reset.dependencies := congrArg _ reset
  have known : ∃ d ∈ entries, d.name = name := by
    rw [← List.mem_map, ← names, List.mem_map]
    exact present
  have before := ordered i e entry name (Eq.mpr (congrArg (name ∈ ·) dependencies) hname) known
  rw [← List.mem_map, List.map_take] at before ⊢
  rw [names]
  exact before

theorem Ordered.find? {entries : List (Entry σ)} (ordered : Ordered entries) {i : Nat}
    {e d : Entry σ} {name : String} (entry : entries[i]? = some e)
    (depends : name ∈ e.dependencies) (found : Context.find? entries name = some d) :
    ∃ j < i, entries[j]? = some d := by
  have named : d.name = name := by simpa using List.find?_some found
  obtain ⟨d', hd', named'⟩ :=
    ordered i e entry name depends ⟨d, List.mem_of_find?_eq_some found, named⟩
  have first : ((entries.take i).find? (·.name == name)).isSome := by
    rw [List.find?_isSome]
    exact ⟨d', hd', by simpa using named'⟩
  have found' : (entries.take i).find? (·.name == name) = some d := by
    rw [Context.find?, ← List.take_append_drop i entries, List.find?_append] at found
    obtain ⟨d'', here⟩ := Option.isSome_iff_exists.mp first
    rw [here] at found ⊢
    simpa using found
  obtain ⟨j, here⟩ := List.getElem?_of_mem (List.mem_of_find?_eq_some found')
  rw [List.getElem?_take] at here
  split at here
  · rename_i before
    exact ⟨j, before, here⟩
  · simp at here

end Context

/-! ## Some task can step -/

namespace Ascent

variable {a : Ascent σ} {workers : Nat}

theorem step?_of_task {b : BringUp σ} {i : Nat} {e : Entry σ} {t : Task}
    (entry : b.entries[i]? = some e) (task : b.tasks[i]? = some t) :
    b.step? i = b.stepOf? i e t := by
  simp only [BringUp.step?, entry, task]

/-- A permit or the lane is withheld only by a call, which can take a step. -/
theorem Sound.free (sound : a.Sound workers) (staffed : 0 < workers)
    (stuck : ∀ i, a.now.step? i = none) (h : Half) : a.now.mayCall h = true := by
  have idle : a.now.calls h = 0 := by
    rw [BringUp.calls, List.countP_eq_zero]
    intro u hu calling
    obtain ⟨k, inside, rfl⟩ := List.mem_iff_getElem.mp hu
    have inside' : k < a.now.entries.length := sound.paired ▸ inside
    have none := stuck k
    rw [step?_of_task (List.getElem?_eq_getElem inside') (List.getElem?_eq_getElem inside)] at none
    simp only [Task.isIn] at calling
    split at calling
    · rename_i p half reports o here
      rw [here] at none
      cases reports <;> simp [BringUp.stepOf?] at none
    · simp at calling
  obtain ⟨permits, lane⟩ := sound.balanced
  cases h with
  | parallel =>
    simp only [BringUp.mayCall, decide_eq_true_eq]
    omega
  | sequential =>
    rw [idle] at lane
    simpa [BringUp.mayCall] using lane

theorem Sound.done (sound : a.Sound workers) (staffed : 0 < workers)
    (ordered : Context.Ordered a.now.entries) (stuck : ∀ i, a.now.step? i = none) (i : Nat) :
    ∀ e t, a.now.entries[i]? = some e → a.now.tasks[i]? = some t → t = .over := by
  induction i using Nat.strongRecOn with
  | ind i ih =>
    intro e t entry task
    have none := stuck i
    rw [step?_of_task entry task] at none
    cases t with
    | wanting p h => simp [BringUp.stepOf?, sound.free staffed stuck h] at none
    | calling p h reports o => cases reports <;> simp [BringUp.stepOf?] at none
    | waiting left =>
      cases left with
      | nil => simp [BringUp.stepOf?] at none
      | cons name left =>
        cases found : Context.find? a.now.entries name with
        | none => simp [BringUp.stepOf?, found] at none
        | some d =>
          have depends : name ∈ e.dependencies := by
            cases sound.each i e _ entry task with
            | waiting past stage split => simp [split]
          -- The component waited for comes earlier, so its task is done and its stage final.
          obtain ⟨j, earlier, entry'⟩ := ordered.find? entry depends found
          have inside : j < a.now.tasks.length := by
            rw [sound.paired]
            exact (List.getElem?_eq_some_iff.mp entry').1
          have task' := List.getElem?_eq_getElem inside
          have done := ih j earlier d _ entry' task'
          rw [done] at task'
          cases sound.each j d _ entry' task' with
          | ended final =>
            cases stage : d.stage <;> simp [stage, Stage.isFinal] at final <;>
              simp [BringUp.stepOf?, found, stage] at none
    | entering | leaving | failing => simp [BringUp.stepOf?] at none
    | _ => rfl

theorem Sound.settled (sound : a.Sound workers) (staffed : 0 < workers)
    (ordered : Context.Ordered a.now.entries) (stuck : ∀ i, a.now.step? i = none) :
    (∀ t ∈ a.now.tasks, t = .over) ∧ ∀ e ∈ a.now.entries, e.stage.isFinal = true := by
  have done := sound.done staffed ordered stuck
  constructor
  · intro t ht
    obtain ⟨i, inside, rfl⟩ := List.mem_iff_getElem.mp ht
    have inside' : i < a.now.entries.length := sound.paired ▸ inside
    exact done i _ _ (List.getElem?_eq_getElem inside') (List.getElem?_eq_getElem inside)
  · intro e he
    obtain ⟨i, inside, rfl⟩ := List.mem_iff_getElem.mp he
    have inside' : i < a.now.tasks.length := sound.paired ▸ inside
    have entry := List.getElem?_eq_getElem inside
    have task := List.getElem?_eq_getElem inside'
    have known := sound.each i _ _ entry task
    rw [done i _ _ entry task] at known
    cases known with
    | ended final => exact final

/-- As long as some component is not at a final stage, some task can step. -/
theorem Sound.progress (sound : a.Sound workers) (staffed : 0 < workers)
    (ordered : Context.Ordered a.now.entries)
    (unfinished : ∃ e ∈ a.now.entries, e.stage.isFinal = false) :
    ∃ i b, a.now.step? i = some b := by
  apply Classical.byContradiction
  intro blocked
  have stuck (i : Nat) : a.now.step? i = none := by
    cases step : a.now.step? i with
    | none => rfl
    | some b => exact absurd ⟨i, b, step⟩ blocked
  obtain ⟨e, he, still⟩ := unfinished
  have final := (sound.settled staffed ordered stuck).2 e he
  exact Bool.false_ne_true (still.symm.trans final)

end Ascent

end Pipeworks
