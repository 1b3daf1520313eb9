import Pipeworks.Proofs.Lifecycle.Schedule
import Mathlib.Data.List.Nodup

/-!
# What a display shows of a bring-up

A tracker folds the updates of all components in the order in which they come, and each component
is shown as its own updates say. The last update of a component gives the stage that it stays at:
the end of its start phase, or its failure. So when no task can take another step, the tracker
shows what the report says, and everything is complete.
-/

namespace Pipeworks

variable {σ : Type}

/-! ## Folding updates -/

/-- Names that differ from each other are all kept. -/
theorem eraseDups_of_nodup {names : List String} (distinct : names.Nodup) :
    names.eraseDups = names := by
  induction names with
  | nil => rfl
  | cons name rest ih =>
    obtain ⟨fresh, distinct⟩ := List.nodup_cons.mp distinct
    have others : rest.filter (fun other => !other == name) = rest := by
      rw [List.filter_eq_self]
      intro other there
      simpa using ne_of_mem_of_not_mem there fresh
    rw [List.eraseDups_cons, others, ih distinct]

namespace Tracker

variable {names : List String} {updates : List Update} {t : Tracker}

/-- The tracker of some names after updates. -/
def after (names : List String) (updates : List Update) : Tracker :=
  updates.foldl Tracker.take (Tracker.ofNames names)

/-- What the updates of one component make of its progress. -/
def shown (updates : List Update) (name : String) (p : Progress) : Progress :=
  (updates.filter (·.component = name)).foldl Progress.take p

theorem shown_append (updates more : List Update) (name : String) (p : Progress) :
    shown (updates ++ more) name p = shown more name (shown updates name p) := by
  rw [shown, List.filter_append, List.foldl_append, shown, shown]

theorem take_known {progress : String → Progress} {u : Update}
    (tracked : t.components = names.map fun name => (name, progress name))
    (known : u.component ∈ names) :
    (t.take u).components = names.map fun name => (name, shown [u] name (progress name)) := by
  have here : (t.get? u.component).isSome = true := by
    rw [get?, tracked]
    cases missing : (names.map fun name => (name, progress name)).lookup u.component with
    | some p => rfl
    | none =>
      rw [List.lookup_eq_none_iff] at missing
      have other := missing _ (List.mem_map_of_mem known)
      simp at other
  rw [take, if_pos here, tracked, List.map_map]
  refine List.map_congr_left fun name _ => ?_
  by_cases own : name = u.component
  · subst own
    simp [shown]
  · simp [shown, own, Ne.symm own]

/-- Whatever comes in between, each component is shown as its own updates say. -/
theorem components_foldl {progress : String → Progress}
    (tracked : t.components = names.map fun name => (name, progress name))
    (known : ∀ u ∈ updates, u.component ∈ names) : (updates.foldl Tracker.take t).components =
      names.map fun name => (name, shown updates name (progress name)) := by
  induction updates generalizing t progress with
  | nil => exact tracked
  | cons u updates ih =>
    obtain ⟨first, later⟩ := List.forall_mem_cons.mp known
    rw [List.foldl_cons, ih (take_known tracked first) later]
    refine List.map_congr_left fun name _ => ?_
    rw [← shown_append]
    rfl

/-- Each tracked name is shown once, however often it was given. -/
theorem components_tracked (known : ∀ u ∈ updates, u.component ∈ names) :
    (after names updates).components =
      names.eraseDups.map fun name => (name, shown updates name .fresh) :=
  components_foldl rfl fun u hu => List.mem_eraseDups.mpr (known u hu)

theorem components_after (distinct : names.Nodup) (known : ∀ u ∈ updates, u.component ∈ names) :
    (after names updates).components =
      names.map fun name => (name, shown updates name .fresh) := by
  rw [components_tracked known, eraseDups_of_nodup distinct]

end Tracker

/-! ## What a step publishes -/

namespace BringUp

variable {b b' : BringUp σ} {i : Nat} {e : Entry σ} {t t' : Task} {ns : List CallNote}
  {stage : Stage}

/-- The updates that a step publishes, by the stage of the component and its task after it. With
its last update a component tells the stage at which it stays, unless it failed too late. -/
inductive Publishes (e : Entry σ) : Stage → Task → List Update → Prop where
  | nothing {stage : Stage} {t' : Task} (going : t' ≠ .over) : Publishes e stage t' []
  | progress {stage : Stage} {t' : Task} {p percent s} (going : t' ≠ .over) :
      Publishes e stage t' [⟨e.name, p, min percent 100, s⟩]
  | started : Publishes e .started .over [⟨e.name, .start, 100, .started⟩]
  | failed {p reason} : Publishes e (.failed reason) .over [⟨e.name, p, 100, .failed reason⟩]
  | tooLate {p reason} (final : e.stage.isFinal = true) :
      Publishes e e.stage .over [⟨e.name, p, 100, .failed reason⟩]

theorem Publishes.own {us : List Update} (publishes : Publishes e stage t' us) :
    ∀ u ∈ us, u.component = e.name := by
  cases publishes <;> simp

theorem updates_take (b : BringUp σ) (h : Half) :
    (b.take h).attached = b.attached ∧ (b.take h).updates = b.updates := by
  cases h <;> exact ⟨rfl, rfl⟩

theorem updates_release (b : BringUp σ) (h : Half) :
    (b.release h).attached = b.attached ∧ (b.release h).updates = b.updates := by
  cases h <;> exact ⟨rfl, rfl⟩

theorem updates_call (b : BringUp σ) (i : Nat) (e : Entry σ) (p : Phase) (h : Half) :
    (b.call i e p h).attached = b.attached ∧ (b.call i e p h).updates = b.updates := by
  rw [call]
  cases e.component.phaseCall p h <;> exact b.updates_take h

theorem Steps.publishes (steps : b.Steps i e t ns stage t' b') (step : b.step? i = some b')
    (attached : b.attached = true) :
    b'.attached = true ∧ ∃ us, b'.updates = b.updates ++ us ∧ Publishes e stage t' us := by
  have made := (Ascent.step?_of_task steps.entry steps.task).symm.trans step
  have quiet (same : b'.attached = b.attached ∧ b'.updates = b.updates) (going : t' ≠ .over) :
      b'.attached = true ∧ ∃ us, b'.updates = b.updates ++ us ∧ Publishes e stage t' us :=
    ⟨same.1.trans attached, [], same.2.trans (List.append_nil _).symm, .nothing going⟩
  have reports (p : Phase) (percent : Nat) (s : Stage) :
      Reporter.report ⟨e.name, p, b.attached⟩ percent s = [⟨e.name, p, min percent 100, s⟩] := by
    rw [Reporter.report, if_pos attached]
  cases steps.turn with
  | refused reason bars =>
    simp only [stepOf?, enter, Stage.advance, bars] at made
    obtain rfl := Option.some.inj made
    exact quiet ⟨rfl, rfl⟩ (by simp)
  | @entered p h may has first =>
    cases h with
    | parallel =>
      simp only [stepOf?, enter, Stage.advance, may, if_true, has] at made
      obtain rfl := Option.some.inj made
      exact ⟨attached, _, congrArg (b.updates ++ ·) (reports ..), .progress (by simp)⟩
    | sequential =>
      simp only [stepOf?, enter, Stage.advance, may, if_true, has, first rfl] at made
      obtain rfl := Option.some.inj made
      exact ⟨attached, _, congrArg (b.updates ++ ·) (reports ..), .progress (by simp)⟩
  | skipped may none =>
    simp only [stepOf?, enter, Stage.advance, may, if_true, none, Bool.false_eq_true,
      if_false] at made
    obtain rfl := Option.some.inj made
    exact quiet ⟨rfl, rfl⟩ (by simp)
  | @called p h free =>
    rw [stepOf?, if_pos free] at made
    obtain rfl := Option.some.inj made
    exact quiet (b.updates_call i e p h) (by simp)
  | reported =>
    obtain rfl := Option.some.inj made
    exact ⟨attached, _, congrArg (b.updates ++ ·) (reports ..), .progress (by simp)⟩
  | @broken p h o reason failure =>
    simp only [stepOf?, finish, failure] at made
    obtain rfl := Option.some.inj made
    exact quiet (b.updates_release h) (by simp)
  | halved more =>
    simp only [stepOf?, finish, phaseFailure?, more, if_true] at made
    obtain rfl := Option.some.inj made
    exact ⟨attached, _, congrArg (b.updates ++ ·) (reports ..), .progress (by simp)⟩
  | @ended p h last =>
    cases h with
    | parallel =>
      simp only [stepOf?, finish, phaseFailure?, last rfl, Bool.false_eq_true, if_false] at made
      obtain rfl := Option.some.inj made
      exact quiet ⟨rfl, rfl⟩ (by simp)
    | sequential =>
      obtain rfl := Option.some.inj made
      exact quiet ⟨rfl, rfl⟩ (by simp)
  | barred reason bars =>
    simp only [stepOf?, leave, Stage.advance, bars] at made
    obtain rfl := Option.some.inj made
    exact quiet ⟨rfl, rfl⟩ (by simp)
  | initialized may =>
    simp only [stepOf?, leave, Stage.done, Stage.advance, may, if_true] at made
    obtain rfl := Option.some.inj made
    exact ⟨attached, _, congrArg (b.updates ++ ·) (reports ..), .progress (by simp)⟩
  | started may =>
    simp only [stepOf?, leave, Stage.done, Stage.advance, may, if_true] at made
    obtain rfl := Option.some.inj made
    exact ⟨attached, _, congrArg (b.updates ++ ·) (reports ..), .started⟩
  | ready =>
    obtain rfl := Option.some.inj made
    exact quiet ⟨rfl, rfl⟩ (by simp)
  | @passed name left fine =>
    refine quiet ?_ (by simp)
    cases found : Context.find? b.entries name with
    | none =>
      simp only [stepOf?, found] at made
      obtain rfl := Option.some.inj made
      exact ⟨rfl, rfl⟩
    | some d =>
      simp only [stepOf?, found, fine d found] at made
      obtain rfl := Option.some.inj made
      exact ⟨rfl, rfl⟩
  | blocked found failed =>
    simp only [stepOf?, found, failed] at made
    obtain rfl := Option.some.inj made
    exact quiet ⟨rfl, rfl⟩ (by simp)
  | failed may =>
    simp only [stepOf?, fail, Stage.advance, Stage.canBecome_failed, may, Bool.not_false,
      if_true] at made
    obtain rfl := Option.some.inj made
    exact ⟨attached, _, congrArg (b.updates ++ ·) (reports ..), .failed⟩
  | tooLate final =>
    simp only [stepOf?, fail, Stage.advance, Stage.canBecome_failed, final, Bool.not_true,
      Bool.false_eq_true, if_false] at made
    obtain rfl := Option.some.inj made
    exact ⟨attached, _, congrArg (b.updates ++ ·) (reports ..), .tooLate final⟩

end BringUp

/-! ## What is shown of one component -/

/-- What is shown of a component whose task is where it is. Until the task is over the stage is not
final, so a failure can still be recorded. -/
structure Task.Shown (e : Entry σ) (p : Progress) (t : Task) : Prop where
  init : p.init ≤ 100
  start : p.start ≤ 100
  unfinished : t ≠ .over → e.stage.isFinal = false
  ended : t = .over → p = ⟨100, 100, e.stage⟩

namespace BringUp

variable {b b' : BringUp σ} {i : Nat} {e : Entry σ} {t t' : Task} {ns : List CallNote}
  {stage : Stage}

theorem Turn.unfinished (turn : Turn b i e t ns stage t') (before : e.stage.isFinal = false)
    (going : t' ≠ .over) : stage.isFinal = false := by
  cases turn with
  | @entered p | @skipped p => cases p <;> rfl
  | initialized => rfl
  | started | failed => exact absurd rfl going
  | _ => exact before

theorem Turn.before (turn : Turn b i e t ns stage t') : t ≠ .over := by
  cases turn <;> nofun

end BringUp

theorem Progress.take_le {p : Progress} (init : p.init ≤ 100) (start : p.start ≤ 100) {u : Update}
    (percent : u.percent ≤ 100) : (p.take u).init ≤ 100 ∧ (p.take u).start ≤ 100 := by
  have init' := Nat.max_le_of_le_of_le init percent
  have start' := Nat.max_le_of_le_of_le start percent
  rw [take]
  cases u.phase <;> cases u.stage.isFailed <;> simp [init', start', start]

theorem Task.Shown.step {b b' : BringUp σ} {i : Nat} {e : Entry σ} {t t' : Task}
    {ns : List CallNote} {stage : Stage} {us : List Update} {p : Progress}
    (known : Shown e p t) (steps : b.Steps i e t ns stage t' b')
    (publishes : BringUp.Publishes e stage t' us) :
    Shown { e with stage } (us.foldl Progress.take p) t' := by
  have unfinished := known.unfinished steps.turn.before
  have later := steps.turn.unfinished unfinished
  cases publishes with
  | nothing going => exact ⟨known.init, known.start, later, fun ended => absurd ended going⟩
  | progress going =>
    obtain ⟨init, start⟩ := Progress.take_le known.init known.start (u := ⟨_, _, min _ 100, _⟩)
      (Nat.min_le_right _ _)
    exact ⟨init, start, later, fun ended => absurd ended going⟩
  | started =>
    have full : p.take ⟨e.name, .start, 100, .started⟩ = ⟨100, 100, .started⟩ := by
      simp [Progress.take, Stage.isFailed, known.start]
    rw [List.foldl_cons, full, List.foldl_nil]
    exact ⟨Nat.le_refl _, Nat.le_refl _, later, fun _ => rfl⟩
  | @failed q reason =>
    have full : p.take ⟨e.name, q, 100, .failed reason⟩ = ⟨100, 100, .failed reason⟩ := rfl
    rw [List.foldl_cons, full, List.foldl_nil]
    exact ⟨Nat.le_refl _, Nat.le_refl _, later, fun _ => rfl⟩
  | tooLate final => exact absurd (final.symm.trans unfinished) Bool.noConfusion

/-! ## Runs -/

/-- What is shown in a bring-up of components with given names. -/
structure BringUp.Displays (names : List String) (b : BringUp σ) : Prop where
  attached : b.attached = true
  named : b.entries.map Entry.name = names
  paired : b.tasks.length = b.entries.length
  known : ∀ u ∈ b.updates, u.component ∈ names
  each : ∀ (j : Nat) x u, b.entries[j]? = some x → b.tasks[j]? = some u →
    Task.Shown x (Tracker.shown b.updates x.name .fresh) u

namespace BringUp

variable {b b' : BringUp σ} {names : List String}

theorem displays_begin {entries : List (Entry σ)}
    (unfinished : ∀ e ∈ entries, e.stage.isFinal = false) (permits : Nat) (world : σ) :
    (begin entries permits true world).Displays (entries.map Entry.name) where
  attached := rfl
  named := rfl
  paired := List.length_map ..
  known := by simp [begin]
  each j x u entry task := by
    obtain rfl := begin_task (List.mem_of_getElem? task)
    exact ⟨Nat.zero_le _, Nat.zero_le _, fun _ => unfinished x (List.mem_of_getElem? entry), nofun⟩

theorem Displays.step {i : Nat} (displays : b.Displays names) (distinct : names.Nodup)
    (step : b.step? i = some b') : b'.Displays names := by
  obtain ⟨e, t, stage, t', steps⟩ := steps_of_step? step
  obtain ⟨attached, us, updates, publishes⟩ := steps.publishes step displays.attached
  have own := publishes.own
  have named : b'.entries.map Entry.name = names := by
    have same := congrArg (List.map Entry.name) steps.reset
    rw [List.map_map, List.map_map] at same
    exact same.trans displays.named
  refine ⟨attached, named, ?_, ?_, ?_⟩
  · rw [steps.entries, steps.tasks, List.length_set, List.length_set]
    exact displays.paired
  · have here : e.name ∈ names := by
      rw [← displays.named]
      exact List.mem_map_of_mem (List.mem_of_getElem? steps.entry)
    rw [updates]
    intro u hu
    rcases List.mem_append.mp hu with old | new
    · exact displays.known u old
    · exact own u new ▸ here
  · intro j x u entry task
    rw [updates, Tracker.shown_append]
    rcases steps.at entry task with ⟨rfl, rfl, rfl⟩ | ⟨other, entry, task⟩
    · have mine : us.filter (·.component = e.name) = us := by
        rw [List.filter_eq_self]
        exact fun u hu => decide_eq_true (own u hu)
      change Task.Shown _ (Tracker.shown us e.name _) u
      rw [Tracker.shown, mine]
      exact (displays.each j e t steps.entry steps.task).step steps publishes
    · have foreign : us.filter (·.component = x.name) = [] := by
        rw [List.filter_eq_nil_iff]
        intro u hu
        rw [decide_eq_true_iff, own u hu]
        intro same
        have inside : i < names.length := by
          rw [← displays.named, List.length_map]
          exact (List.getElem?_eq_some_iff.mp steps.entry).1
        refine other ((List.getElem?_inj inside distinct).mp ?_)
        rw [← displays.named, List.getElem?_map, List.getElem?_map, steps.entry, entry,
          Option.map_some, Option.map_some, same]
      rw [Tracker.shown, foreign]
      exact displays.each j x u entry task

theorem Displays.leads (displays : b.Displays names) (distinct : names.Nodup)
    (leads : b.Leads b') : b'.Displays names := by
  obtain ⟨schedule, rfl⟩ := leads
  induction schedule generalizing b with
  | nil => exact displays
  | cons i schedule ih =>
    rw [List.foldl_cons, turn]
    cases step : b.step? i with
    | none => exact ih displays
    | some b' => exact ih (displays.step distinct step)

/-- When all tasks are over, every component is shown complete at its stage. -/
theorem Displays.complete (displays : b.Displays names) (distinct : names.Nodup)
    (ended : ∀ t ∈ b.tasks, t = .over) : (Tracker.after names b.updates).components =
      b.entries.map fun e => (e.name, ⟨100, 100, e.stage⟩) := by
  rw [Tracker.components_after distinct displays.known, ← displays.named, List.map_map]
  refine List.map_congr_left fun e he => ?_
  obtain ⟨j, inside, rfl⟩ := List.mem_iff_getElem.mp he
  have task := List.getElem?_eq_getElem (displays.paired.symm ▸ inside)
  have shown := displays.each j _ _ (List.getElem?_eq_getElem inside) task
  rw [Function.comp_apply, shown.ended (ended _ (List.mem_of_getElem? task))]

end BringUp

/-! ## Complete displays -/

/-- A tracker shows that components with the given stages are complete. -/
structure Tracker.Complete (t : Tracker) (report : LifecycleReport) : Prop where
  stages : t.components.map (fun c => (c.1, c.2.stage)) = report.stages
  failed : t.failed = report.failures.map Prod.fst
  full : ∀ c ∈ t.components, c.2.init = 100 ∧ c.2.start = 100
  complete : t.isComplete = true
  aggregate : t.aggregate = 100

theorem LifecycleReport.failuresOf_names (stages : List (String × Stage)) :
    (failuresOf stages).map Prod.fst = (stages.filter (·.2.isFailed)).map Prod.fst := by
  induction stages with
  | nil => rfl
  | cons s stages ih =>
    obtain ⟨name, stage⟩ := s
    rw [failuresOf] at ih ⊢
    cases stage <;> simp [Stage.isFailed, ih]

theorem Tracker.total_full {components : List (String × Progress)}
    (full : ∀ c ∈ components, c.2.init = 100 ∧ c.2.start = 100) :
    total components = components.length * 200 := by
  induction components with
  | nil => rfl
  | cons c rest ih =>
    obtain ⟨⟨init, start⟩, full⟩ := List.forall_mem_cons.mp full
    rw [total, init, start, ih full, List.length_cons]
    omega

theorem Tracker.aggregate_full {t : Tracker}
    (full : ∀ c ∈ t.components, c.2.init = 100 ∧ c.2.start = 100) : t.aggregate = 100 := by
  rw [aggregate]
  split
  · rfl
  · rename_i some
    have positive : 0 < t.components.length := by
      rw [List.isEmpty_iff] at some
      exact List.length_pos_iff.mpr some
    rw [total_full full, Nat.mul_div_cancel_left 100 (by omega)]
    rfl

theorem Tracker.complete_of_components {t : Tracker} {b : BringUp σ}
    (components : t.components = b.entries.map fun e => (e.name, ⟨100, 100, e.stage⟩))
    (final : ∀ e ∈ b.entries, e.stage.isFinal = true) : t.Complete b.report := by
  have full : ∀ c ∈ t.components, c.2.init = 100 ∧ c.2.start = 100 := by
    rw [components, List.forall_mem_map]
    exact fun _ _ => ⟨rfl, rfl⟩
  refine ⟨?_, ?_, full, ?_, aggregate_full full⟩
  · rw [components, List.map_map]
    rfl
  · rw [BringUp.report, LifecycleReport.failuresOf_names, failed, components, List.filter_map,
      List.filter_map, List.map_map, List.map_map]
    rfl
  · rw [isComplete, components, List.all_map, List.all_eq_true]
    exact final

/-- When no task of a bring-up can take another step, the display shows its report. -/
theorem Ascent.complete_play {entries : List (Entry σ)}
    (distinct : (entries.map Entry.name).Nodup) (created : ∀ e ∈ entries, e.stage = .created)
    (ordered : Context.Ordered entries) {permits : Nat} (staffed : 0 < permits) (world : σ)
    (schedule : List Nat)
    (stuck : ∀ i, (play entries permits true world schedule).now.step? i = none) :
    (Tracker.after (entries.map Entry.name)
      (play entries permits true world schedule).now.updates).Complete
      (play entries permits true world schedule).now.report := by
  have sound := sound_play entries permits true world schedule
  obtain ⟨ended, final⟩ := sound.settled staffed
    (ordered.of_reset (play_reset entries permits true world schedule)) stuck
  have start : (BringUp.begin entries permits true world).Displays (entries.map Entry.name) :=
    BringUp.displays_begin (fun e he => by rw [created e he]; rfl) permits world
  have displays := start.leads distinct ⟨schedule, now_play entries permits true world schedule⟩
  exact Tracker.complete_of_components (displays.complete distinct ended) final

end Pipeworks
