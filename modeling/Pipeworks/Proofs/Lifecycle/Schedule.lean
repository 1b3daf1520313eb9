import Pipeworks.Proofs.Lifecycle.Settling

/-!
# The order of steps that is run

`BringUp.run` always takes a step of the first task that can take one, and publishes
all reports of a call at once. It follows one schedule, and its fuel suffices: it
ends only when no task can step.
-/

namespace Pipeworks

variable {σ : Type}

namespace BringUp

variable {b b' : BringUp σ} {i : Nat} {e : Entry σ} {t : Task}

def turn (b : BringUp σ) (i : Nat) : BringUp σ := (b.step? i).getD b

/-- Some schedule leads from one state to another. -/
def Leads (b b' : BringUp σ) : Prop := ∃ schedule : List Nat, b' = schedule.foldl turn b

theorem Leads.refl (b : BringUp σ) : b.Leads b := ⟨[], rfl⟩

theorem Leads.trans {b'' : BringUp σ} (first : b.Leads b') (second : b'.Leads b'') :
    b.Leads b'' := by
  obtain ⟨one, rfl⟩ := first
  obtain ⟨two, rfl⟩ := second
  exact ⟨one ++ two, List.foldl_append.symm⟩

theorem Leads.step (step : b.step? i = some b') : b.Leads b' := by
  refine ⟨[i], ?_⟩
  simp [turn, step]

theorem Leads.rank_le (leads : b.Leads b') : b'.rank ≤ b.rank := by
  obtain ⟨schedule, rfl⟩ := leads
  induction schedule generalizing b with
  | nil => exact Nat.le_refl _
  | cons i schedule ih =>
    refine Nat.le_trans ih ?_
    rw [turn]
    cases step : b.step? i with
    | none => exact Nat.le_refl _
    | some b' =>
      obtain ⟨_, _, _, _, steps⟩ := steps_of_step? step
      rcases steps.rank with lower | ⟨same, -⟩
      · exact Nat.le_of_lt lower
      · exact Nat.le_of_eq same

/-! ## Reports -/

/-- No call has reports left. -/
def Drained (b : BringUp σ) : Prop := ∀ t ∈ b.tasks, t.pending = 0

theorem pending_of_drained (drained : b.Drained) : b.pending = 0 := by
  rw [pending]
  rw [Drained] at drained
  generalize b.entries = entries
  generalize b.tasks = tasks at drained
  induction entries generalizing tasks with
  | nil => rfl
  | cons e entries ih =>
    cases tasks with
    | nil => rfl
    | cons t tasks =>
      have first := drained t (List.mem_cons_self ..)
      have rest := ih tasks fun t ht => drained t (List.mem_cons_of_mem _ ht)
      simp only [tally]
      omega

theorem rank_lt_of_drained (drained : b.Drained) (step : b.step? i = some b') :
    b'.rank < b.rank := by
  obtain ⟨_, _, _, _, steps⟩ := steps_of_step? step
  have none := pending_of_drained drained
  rcases steps.rank with lower | ⟨-, fewer⟩
  · exact lower
  · omega

theorem foldl_publish_become (b : BringUp σ) (i : Nat) (t : Task) (e : Entry σ) (p : Phase)
    (reports : List Nat) :
    reports.foldl (fun b percent => b.publish e p percent e.stage) (b.become i t) =
      (reports.foldl (fun b percent => b.publish e p percent e.stage) b).become i t := by
  induction reports generalizing b with
  | nil => rfl
  | cons percent reports ih => exact ih (b.publish e p percent e.stage)

theorem become_become (b : BringUp σ) (i : Nat) (t t' : Task) :
    (b.become i t).become i t' = b.become i t' := by
  simp only [become, List.set_set]

/-- Publishing all reports of a call takes one step for each of them. -/
theorem leads_publishAll (b : BringUp σ) (i : Nat) : b.Leads (b.publishAll i) := by
  cases entry : b.entries[i]? with
  | none => simpa [publishAll, entry] using Leads.refl b
  | some e =>
    cases task : b.tasks[i]? with
    | none => simpa [publishAll, entry, task] using Leads.refl b
    | some t =>
      cases t with
      | calling p h reports o =>
        simp only [publishAll, entry, task]
        induction reports generalizing b with
        | nil =>
          have same : b.become i (.calling p h [] o) = b := by
            obtain ⟨inside, here⟩ := List.getElem?_eq_some_iff.mp task
            rw [become, ← here, List.set_getElem_self]
          rw [List.foldl_nil, same]
          exact .refl b
        | cons percent reports ih =>
          have step : b.step? i =
              some ((b.publish e p percent e.stage).become i (.calling p h reports o)) := by
            simp only [step?, entry, task, stepOf?]
          have inside := (List.getElem?_eq_some_iff.mp task).1
          have rest := ih ((b.publish e p percent e.stage).become i (.calling p h reports o)) entry
            (List.getElem?_set_self inside)
          rw [foldl_publish_become, become_become] at rest
          exact (Leads.step step).trans rest
      | _ => simpa [publishAll, entry, task] using Leads.refl b

theorem foldl_publish_same (b : BringUp σ) (e : Entry σ) (p : Phase) (reports : List Nat) :
    let b' := reports.foldl (fun b percent => b.publish e p percent e.stage) b
    b'.entries = b.entries ∧ b'.tasks = b.tasks := by
  induction reports generalizing b with
  | nil => exact ⟨rfl, rfl⟩
  | cons percent reports ih => exact ih (b.publish e p percent e.stage)

/-- Afterwards the call has no reports left, and the other tasks are as before. -/
theorem publishAll_same (entry : b.entries[i]? = some e) :
    (b.publishAll i).entries = b.entries ∧
    (b.publishAll i).tasks.length = b.tasks.length ∧
    ∀ (j : Nat) (u : Task), (b.publishAll i).tasks[j]? = some u →
      u.pending = 0 ∨ j ≠ i ∧ b.tasks[j]? = some u := by
  have quiet (same : ∀ t, b.tasks[i]? = some t → t.pending = 0) (j : Nat) (u : Task)
      (here : b.tasks[j]? = some u) : u.pending = 0 ∨ j ≠ i ∧ b.tasks[j]? = some u := by
    by_cases own : j = i
    · exact .inl (same u (own ▸ here))
    · exact .inr ⟨own, here⟩
  rw [publishAll]
  rw [entry]
  cases task : b.tasks[i]? with
  | none => exact ⟨rfl, rfl, quiet (by simp [task])⟩
  | some t =>
    cases t with
    | calling p h reports o =>
      obtain ⟨entries, tasks⟩ := foldl_publish_same b e p reports
      refine ⟨entries, ?_, ?_⟩
      · simp only [become, List.length_set, tasks]
      · intro j u here
        simp only [become, tasks, List.getElem?_set] at here
        split at here
        · split at here
          · obtain rfl := Option.some.inj here
            exact .inl rfl
          · simp at here
        · rename_i other
          exact .inr ⟨Ne.symm other, here⟩
    | _ => exact ⟨rfl, rfl, quiet (by simp [task, Task.pending])⟩

/-! ## The step that is run -/

theorem firstOf?_some {k : Nat} {entries : List (Entry σ)} {tasks : List Task}
    (first : b.firstOf? k entries tasks = some b') :
    ∃ j e t b₁, entries[j]? = some e ∧ tasks[j]? = some t ∧ b.stepOf? (k + j) e t = some b₁ ∧
      b' = b₁.publishAll (k + j) := by
  induction entries generalizing k tasks with
  | nil => simp [firstOf?] at first
  | cons e entries ih =>
    cases tasks with
    | nil => simp [firstOf?] at first
    | cons t tasks =>
      cases step : b.stepOf? k e t with
      | some b₁ =>
        simp only [firstOf?, step, Option.map_some] at first
        exact ⟨0, e, t, b₁, rfl, rfl, step, (Option.some.inj first).symm⟩
      | none =>
        simp only [firstOf?, step, Option.map_none] at first
        obtain ⟨j, e', t', b₁, entry, task, made, rest⟩ := ih first
        rw [Nat.add_assoc, Nat.add_comm 1 j] at made rest
        exact ⟨j + 1, e', t', b₁, entry, task, made, rest⟩

theorem firstOf?_none {k : Nat} {entries : List (Entry σ)} {tasks : List Task}
    (first : b.firstOf? k entries tasks = none) (j : Nat) {e : Entry σ} {t : Task}
    (entry : entries[j]? = some e) (task : tasks[j]? = some t) :
    b.stepOf? (k + j) e t = none := by
  induction entries generalizing k tasks j with
  | nil => simp at entry
  | cons first' entries ih =>
    cases tasks with
    | nil => simp at task
    | cons top tasks =>
      cases step : b.stepOf? k first' top with
      | some b₁ => simp [firstOf?, step] at first
      | none =>
        simp only [firstOf?, step, Option.map_none] at first
        cases j with
        | zero =>
          obtain rfl := Option.some.inj entry
          obtain rfl := Option.some.inj task
          exact step
        | succ j =>
          have rest := ih first j entry task
          rwa [Nat.add_assoc, Nat.add_comm 1 j] at rest

/-- The step that is run follows a schedule and lowers the rank. -/
theorem advance?_some (drained : b.Drained) (next : b.advance? = some b') :
    b.Leads b' ∧ b'.Drained ∧ b'.rank < b.rank := by
  obtain ⟨j, e, t, b₁, entry, task, made, rfl⟩ := firstOf?_some next
  rw [Nat.zero_add] at made ⊢
  have step : b.step? j = some b₁ := by simp only [step?, entry, task, made]
  have reports := leads_publishAll b₁ j
  obtain ⟨e', t', stage, u, steps⟩ := steps_of_step? step
  have entry' : b₁.entries[j]? = some { e' with stage } := by
    rw [steps.entries]
    exact List.getElem?_set_self (List.getElem?_eq_some_iff.mp steps.entry).1
  refine ⟨(Leads.step step).trans reports, ?_,
    Nat.lt_of_le_of_lt reports.rank_le (rank_lt_of_drained drained step)⟩
  intro v hv
  obtain ⟨k, here⟩ := List.getElem?_of_mem hv
  rcases (publishAll_same entry').2.2 k v here with none | ⟨other, before⟩
  · exact none
  · rw [steps.tasks, List.getElem?_set_ne (Ne.symm other)] at before
    exact drained v (List.mem_of_getElem? before)

theorem stuck_of_advance? (next : b.advance? = none) (i : Nat) : b.step? i = none := by
  cases entry : b.entries[i]? with
  | none => simp [step?, entry]
  | some e =>
    cases task : b.tasks[i]? with
    | none => simp [step?, entry, task]
    | some t =>
      have none := firstOf?_none next i entry task
      rw [Nat.zero_add] at none
      simp only [step?, entry, task, none]

theorem advance?_of_stuck (stuck : ∀ i, b.step? i = none) : b.advance? = none := by
  cases next : b.advance? with
  | none => rfl
  | some b' =>
    obtain ⟨j, e, t, b₁, entry, task, made, -⟩ := firstOf?_some next
    rw [Nat.zero_add] at made
    have step : b.step? j = some b₁ := by simp only [step?, entry, task, made]
    rw [stuck j] at step
    cases step

/-- With enough fuel the run follows a schedule until no task can step. -/
theorem runFor_settles {fuel : Nat} (drained : b.Drained) (enough : b.rank ≤ fuel) :
    b.Leads (b.runFor fuel) ∧ ∀ i, (b.runFor fuel).step? i = none := by
  induction fuel generalizing b with
  | zero =>
    refine ⟨.refl b, ?_⟩
    intro i
    cases step : b.step? i with
    | none => exact step
    | some b' =>
      have lower := rank_lt_of_drained drained step
      omega
  | succ fuel ih =>
    rw [runFor]
    cases next : b.advance? with
    | none => exact ⟨.refl b, stuck_of_advance? next⟩
    | some b' =>
      obtain ⟨leads, drained', lower⟩ := advance?_some drained next
      obtain ⟨rest, stuck⟩ := ih drained' (by omega)
      exact ⟨leads.trans rest, stuck⟩

end BringUp

namespace Ascent

theorem now_play (entries : List (Entry σ)) (permits : Nat) (attached : Bool) (world : σ)
    (schedule : List Nat) :
    (play entries permits attached world schedule).now =
      schedule.foldl BringUp.turn (BringUp.begin entries permits attached world) := by
  have general (a : Ascent σ) :
      (schedule.foldl step a).now = schedule.foldl BringUp.turn a.now := by
    induction schedule generalizing a with
    | nil => rfl
    | cons i schedule ih =>
      rw [List.foldl_cons, ih, List.foldl_cons]
      congr 1
      rw [step, BringUp.turn]
      cases a.now.step? i <;> rfl
  exact general _

/-- Running a bring-up follows a schedule until no task can step. -/
theorem run_settles (entries : List (Entry σ)) (permits : Nat) (attached : Bool) (world : σ) :
    ∃ schedule, (BringUp.begin entries permits attached world).run =
      (play entries permits attached world schedule).now ∧
      ∀ i, (play entries permits attached world schedule).now.step? i = none := by
  have drained : (BringUp.begin entries permits attached world).Drained := by
    intro t ht
    rw [BringUp.begin_task ht]
    rfl
  obtain ⟨⟨schedule, leads⟩, stuck⟩ := BringUp.runFor_settles drained (Nat.le_refl _)
  refine ⟨schedule, ?_⟩
  rw [now_play]
  constructor
  · exact leads
  · rw [← leads]
    exact stuck

end Ascent

end Pipeworks
