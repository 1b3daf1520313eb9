import Pipeworks.Proofs.Lifecycle.Verdicts

/-!
# A bring-up is confluent

Every task keeps to the verdict on its component that is reached in document
order: the calls it begins, the failure it records and the stage it ends in are
those of the verdict, whatever the schedule. So when no task can step, the report
is the one computed in document order.
-/

namespace Pipeworks

variable {σ : Type}

/-! ## Judged tasks -/

/-- What a task says about the verdict on its component. -/
def Task.Fits (world : σ) (done : List (String × Stage)) (e : Entry σ) : Task → Prop
  | .entering .init => e.stage = .created
  | .calling p h _ o => o = e.outcome p h world
  | .failing _ reason => e.stage.isFinal = false ∧ e.verdict world done = .failed reason
  | .over => e.stage = e.verdict world done
  | _ => True

/-- The calls with a permit in the phase before. -/
def Entry.parallelBefore (e : Entry σ) : Phase → Nat
  | .init => 0
  | .start => e.parallelCalls .init

/-- The calls with a permit that a task has begun, by where it is. -/
def Task.share (world : σ) (done : List (String × Stage)) (e : Entry σ) : Task → Nat
  | .entering p | .wanting p .parallel => e.parallelBefore p
  | .wanting p .sequential | .calling p _ _ _ | .leaving p =>
    e.parallelBefore p + e.parallelCalls p
  | .waiting _ => e.parallelCalls .init
  | .failing _ _ | .over => e.dispatches world done

/-- Components with the verdicts on them. -/
structure Verdicts (world : σ) (done : List (String × Stage)) (entries : List (Entry σ)) : Prop where
  steady : ∀ e ∈ entries, e.Steady
  names : done.map Prod.fst = entries.map Entry.name
  each : ∀ (i : Nat) (e : Entry σ), entries[i]? = some e →
    done[i]? = some (e.name, e.verdict world done)

/-- Every task keeps to the verdict on its component. -/
structure Ascent.Judged (world : σ) (done : List (String × Stage)) (a : Ascent σ) : Prop where
  fits : ∀ (i : Nat) (e : Entry σ) (t : Task), a.now.entries[i]? = some e →
    a.now.tasks[i]? = some t → t.Fits world done e
  told : ∀ (i : Nat) (e : Entry σ), a.now.entries[i]? = some e →
    ∀ p h o, .returned i p h o ∈ a.calls → o = e.outcome p h world
  dispatched : a.now.dispatched = tally (Task.share world done) a.now.entries a.now.tasks

section Verdicts

variable {world : σ} {done : List (String × Stage)} {entries : List (Entry σ)}

theorem lookup_of_find? {name : String} {d : Entry σ}
    (names : done.map Prod.fst = entries.map Entry.name)
    (found : Context.find? entries name = some d) :
    ∃ (j : Nat) (stage : Stage), entries[j]? = some d ∧ done[j]? = some (name, stage) ∧
      done.lookup name = some stage := by
  induction entries generalizing done with
  | nil => simp [Context.find?] at found
  | cons e entries ih =>
    cases done with
    | nil => simp at names
    | cons v done =>
      obtain ⟨key, stage⟩ := v
      simp only [List.map_cons, List.cons.injEq] at names
      obtain ⟨rfl, names⟩ := names
      by_cases here : e.name = name
      · subst here
        have own : e = d := by simpa [Context.find?] using found
        subst own
        exact ⟨0, stage, rfl, rfl, by simp⟩
      · have found : Context.find? entries name = some d := by
          simpa [Context.find?, here] using found
        obtain ⟨j, stage', entry, judged, known⟩ := ih names found
        refine ⟨j + 1, stage', entry, judged, ?_⟩
        rw [List.lookup_cons, beq_eq_false_iff_ne.mpr (Ne.symm here)]
        exact known

theorem Verdicts.lookup (verdicts : Verdicts world done entries) {name : String} {d : Entry σ}
    (found : Context.find? entries name = some d) :
    ∃ j : Nat, entries[j]? = some d ∧ done.lookup name = some (d.verdict world done) := by
  obtain ⟨j, stage, entry, judged, known⟩ := lookup_of_find? verdicts.names found
  have same := verdicts.each j d entry
  rw [judged] at same
  obtain ⟨-, rfl⟩ := Prod.mk.inj (Option.some.inj same)
  exact ⟨j, entry, known⟩

theorem Verdicts.lookup_none (verdicts : Verdicts world done entries) {name : String}
    (absent : Context.find? entries name = none) : done.lookup name = none := by
  rw [List.lookup_eq_none_iff]
  intro v hv
  apply bne_iff_ne.mpr
  rintro rfl
  have named : v.1 ∈ entries.map Entry.name := by
    rw [← verdicts.names]
    exact List.mem_map.mpr ⟨v, hv, rfl⟩
  obtain ⟨d, hd, named⟩ := List.mem_map.mp named
  have other := List.find?_eq_none.mp absent d hd
  simp [named] at other

end Verdicts

namespace Entry

variable {e : Entry σ} {p : Phase} {world : σ} {done : List (String × Stage)}

/-- Nothing has kept a component from beginning a phase. -/
def Cleared (e : Entry σ) (world : σ) (done : List (String × Stage)) : Phase → Prop
  | .init => True
  | .start => e.phaseFails? .init world = none ∧ e.dependencies.find? (fellShort done) = none

theorem Cleared.failed {reason : String} (cleared : e.Cleared world done p)
    (fails : e.phaseFails? p world = some reason) :
    e.verdict world done = .failed reason ∧
      e.dispatches world done = e.parallelBefore p + e.parallelCalls p := by
  cases p with
  | init => simp [verdict, dispatches, fails, parallelBefore]
  | start =>
    obtain ⟨init, dependencies⟩ := cleared
    simp [verdict, dispatches, init, dependencies, fails, parallelBefore]

theorem Cleared.started (cleared : e.Cleared world done .start)
    (succeeds : e.phaseFails? .start world = none) :
    e.verdict world done = .started ∧
      e.dispatches world done = e.parallelBefore .start + e.parallelCalls .start := by
  obtain ⟨init, dependencies⟩ := cleared
  simp [verdict, dispatches, init, dependencies, succeeds, parallelBefore]

theorem verdict_blocked {name : String} (init : e.phaseFails? .init world = none)
    (first : e.dependencies.find? (fellShort done) = some name) :
    e.verdict world done = .failed ("dependency " ++ inQuotes name ++ " failed") ∧
      e.dispatches world done = e.parallelCalls .init := by
  simp [verdict, dispatches, init, first]

end Entry

/-! ## Steps -/

/-- A call returns only from the task that is in it, with the outcome that it holds. -/
theorem BringUp.Turn.returned {b : BringUp σ} {i j : Nat} {e : Entry σ} {t t' : Task}
    {ns : List CallNote} {stage : Stage} {p : Phase} {h : Half} {o : Outcome Unit}
    (turn : Turn b i e t ns stage t') (told : .returned j p h o ∈ ns) :
    j = i ∧ t = .calling p h [] o := by
  cases turn <;> simp at told <;> obtain ⟨rfl, rfl, rfl, rfl⟩ := told <;> exact ⟨rfl, rfl⟩

namespace Ascent.Judged

variable {a : Ascent σ} {workers : Nat} {world : σ} {done : List (String × Stage)} {i : Nat}
  {e : Entry σ} {t : Task} {p : Phase}

/-- Only a task that is done has a component at a final stage. -/
theorem finished (judged : a.Judged world done) (sound : a.Sound workers)
    (entry : a.now.entries[i]? = some e) (task : a.now.tasks[i]? = some t)
    (final : e.stage.isFinal = true) : t = .over := by
  have fits := judged.fits i e t entry task
  have running (p : Phase) (stage : e.stage = .running p) : False := by
    rw [stage] at final
    cases p <;> exact Bool.false_ne_true final
  cases sound.each i e t entry task with
  | fresh =>
    have stage : e.stage = .created := fits
    rw [stage] at final
    exact absurd final Bool.false_ne_true
  | wanting stage | calling stage | leaving stage => exact (running _ stage).elim
  | waiting _ stage | again stage =>
    rw [stage] at final
    exact absurd final Bool.false_ne_true
  | failing => exact absurd (fits.1.symm.trans final) Bool.false_ne_true
  | ended => rfl

/-- A component that is found at a final stage is there by its verdict. -/
theorem lookup (judged : a.Judged world done) (sound : a.Sound workers)
    (verdicts : Verdicts world done a.now.entries) {name : String} {d : Entry σ}
    (found : Context.find? a.now.entries name = some d) (final : d.stage.isFinal = true) :
    done.lookup name = some d.stage := by
  obtain ⟨j, entry, known⟩ := verdicts.lookup found
  have inside : j < a.now.tasks.length := by
    rw [sound.paired]
    exact (List.getElem?_eq_some_iff.mp entry).1
  have task := List.getElem?_eq_getElem inside
  have fits := judged.fits j d _ entry task
  rw [judged.finished sound entry task final] at fits
  have stage : d.stage = d.verdict world done := fits
  rw [known, stage]

theorem fine (judged : a.Judged world done) (sound : a.Sound workers)
    (verdicts : Verdicts world done a.now.entries) {name : String}
    (started : ∀ d, Context.find? a.now.entries name = some d → d.stage = .started) :
    fellShort done name = false := by
  rw [fellShort]
  cases found : Context.find? a.now.entries name with
  | none => rw [verdicts.lookup_none found]
  | some d =>
    have stage := started d found
    rw [judged.lookup sound verdicts found (by rw [stage]; rfl), stage]

theorem passed (judged : a.Judged world done) (entry : a.now.entries[i]? = some e)
    {c : List CallNote} {h : Half} (made : trail i a.calls = c)
    (success : .returned i p h (.ok ()) ∈ c) : e.outcome p h world = .ok () :=
  (judged.told i e entry p h _ (mem_of_trail made success)).symm

theorem succeeds (judged : a.Judged world done) (entry : a.now.entries[i]? = some e)
    {c : List CallNote} (made : trail i a.calls = c) (whole : ∀ n ∈ e.whole i p, n ∈ c) :
    e.phaseFails? p world = none :=
  Entry.phaseFails?_none fun _ has => judged.passed entry made (whole _ (Entry.mem_whole has i))

theorem cleared (judged : a.Judged world done) (sound : a.Sound workers)
    (verdicts : Verdicts world done a.now.entries) (entry : a.now.entries[i]? = some e)
    {c : List CallNote} (ready : e.Ready a.now.entries p) (made : trail i a.calls = c)
    (prior : ∀ n ∈ e.prior i p, n ∈ c) : e.Cleared world done p := by
  cases p with
  | init => trivial
  | start =>
    refine ⟨judged.succeeds entry made prior, ?_⟩
    rw [List.find?_eq_none]
    intro name depends
    rw [judged.fine sound verdicts (ready name depends)]
    exact Bool.false_ne_true

/-- A turn keeps to the verdict, and begins a call with a permit for each that is added
to the share of the task. -/
theorem turn {ns : List CallNote} {stage : Stage} {t' : Task} {b' : BringUp σ}
    (judged : a.Judged world done) (sound : a.Sound workers)
    (verdicts : Verdicts world done a.now.entries)
    (steps : a.now.Steps i e t ns stage t' b') :
    t'.Fits world done { e with stage } ∧
      t'.share world done { e with stage } + a.now.dispatched =
        t.share world done e + b'.dispatched := by
  have fits := judged.fits i e t steps.entry steps.task
  have known := sound.each i e t steps.entry steps.task
  have steady := verdicts.steady e (List.mem_of_getElem? steps.entry)
  have counted : b'.dispatched = (ns.foldl Shared.note a.now.shared).dispatched :=
    congrArg Shared.dispatched steps.shared
  have entry := steps.entry
  have idle {u v : Nat} (none : b'.dispatched = a.now.dispatched) (same : u = v) :
      u + a.now.dispatched = v + b'.dispatched := by omega
  have alone (p : Phase) : e.stage = .running p → e.stage.isFinal = false := by
    intro stage
    rw [stage]
    cases p <;> rfl
  cases steps.turn with
  | refused reason bars =>
    -- A task enters a phase only from the stage before it.
    cases known with
    | fresh =>
      have stage : e.stage = .created := fits
      simp [stage, Stage.canBecome, Stage.running] at bars
    | again stage => simp [stage, Stage.canBecome, Stage.running] at bars
  | @entered p h may has first =>
    refine ⟨trivial, idle counted ?_⟩
    cases h with
    | parallel => rfl
    | sequential =>
      have none : e.parallelCalls p = 0 := by simp [Entry.parallelCalls, first rfl]
      exact congrArg (e.parallelBefore p + ·) none
  | @skipped p may without =>
    have none : e.parallelCalls p = 0 := by simp [Entry.parallelCalls, without]
    exact ⟨trivial, idle counted (congrArg (e.parallelBefore p + ·) none)⟩
  | @called p h free =>
    refine ⟨steady p h _ _, ?_⟩
    cases known with
    | wanting stage has =>
      cases h with
      | parallel =>
        have one : e.parallelCalls p = 1 := by simp [Entry.parallelCalls, has]
        have more : b'.dispatched = a.now.dispatched + 1 := counted
        change e.parallelBefore p + e.parallelCalls p + a.now.dispatched =
          e.parallelBefore p + b'.dispatched
        omega
      | sequential => exact idle counted rfl
  | reported => exact ⟨fits, idle counted rfl⟩
  | @broken p h o reason failure =>
    cases known with
    | calling stage has ready made =>
      have same : o = e.outcome p h world := fits
      have cleared : e.Cleared world done p := by
        refine judged.cleared sound verdicts entry ready made ?_
        intro n hn
        exact List.mem_append_left _ (List.mem_append_left _ hn)
      have fails : e.phaseFails? p world = some reason := by
        refine Entry.phaseFails?_some has (same ▸ failure) ?_
        rintro rfl parallel
        refine judged.passed entry made ?_
        exact List.mem_append_left _ (List.mem_append_right _ (Entry.mem_earlier parallel i))
      obtain ⟨verdict, share⟩ := cleared.failed fails
      refine ⟨⟨alone p stage, verdict⟩, idle ?_ share⟩
      cases h <;> exact counted
  | halved => exact ⟨trivial, idle counted rfl⟩
  | @ended p h =>
    refine ⟨trivial, idle ?_ rfl⟩
    cases h <;> exact counted
  | @barred p reason bars =>
    -- A task leaves a phase only from the stage of that phase.
    cases known with
    | leaving stage => cases p <;> simp [stage, Stage.canBecome, Stage.running, Stage.done] at bars
  | initialized => exact ⟨trivial, idle counted (Nat.zero_add _).symm⟩
  | started =>
    cases known with
    | leaving stage ready made =>
      have cleared : e.Cleared world done .start :=
        judged.cleared sound verdicts entry ready made fun n hn => List.mem_append_left _ hn
      have succeeds : e.phaseFails? .start world = none :=
        judged.succeeds entry made fun n hn => List.mem_append_right _ hn
      obtain ⟨verdict, share⟩ := cleared.started succeeds
      exact ⟨verdict.symm, idle counted share⟩
  | ready => exact ⟨trivial, idle counted rfl⟩
  | passed => exact ⟨trivial, idle counted rfl⟩
  | @blocked name left d reason found failed =>
    cases known with
    | waiting past stage split started made =>
      have init : e.phaseFails? .init world = none :=
        judged.succeeds entry made fun n hn => hn
      have short : fellShort done name = true := by
        rw [fellShort]
        rw [judged.lookup sound verdicts found (by rw [failed]; rfl), failed]
      have first : e.dependencies.find? (fellShort done) = some name := by
        have before : past.find? (fellShort done) = none := by
          rw [List.find?_eq_none]
          intro n hn
          rw [judged.fine sound verdicts (started n hn)]
          exact Bool.false_ne_true
        rw [split, List.find?_append, before, Option.none_or, List.find?_cons_of_pos short]
      obtain ⟨verdict, share⟩ := Entry.verdict_blocked init first
      exact ⟨⟨by rw [stage]; rfl, verdict⟩, idle counted share⟩
  | failed => exact ⟨fits.2.symm, idle counted rfl⟩
  | tooLate final => exact absurd (fits.1.symm.trans final) Bool.false_ne_true

theorem step {ns : List CallNote} {stage : Stage} {t' : Task} {b' : BringUp σ}
    (judged : a.Judged world done) (sound : a.Sound workers)
    (verdicts : Verdicts world done a.now.entries)
    (steps : a.now.Steps i e t ns stage t' b') : Judged world done ⟨b', a.calls ++ ns⟩ := by
  obtain ⟨own, share⟩ := judged.turn sound verdicts steps
  refine ⟨?_, ?_, ?_⟩
  · intro j x u entry task
    rcases steps.at entry task with ⟨-, rfl, rfl⟩ | ⟨-, entry, task⟩
    · exact own
    · exact judged.fits j x u entry task
  · intro j x entry p h o told
    have before : ∃ x', a.now.entries[j]? = some x' ∧
        x.outcome p h world = x'.outcome p h world := by
      rw [steps.entries, List.getElem?_set] at entry
      split at entry
      · rename_i here
        subst here
        split at entry
        · obtain rfl := Option.some.inj entry
          exact ⟨e, steps.entry, rfl⟩
        · simp at entry
      · exact ⟨x, entry, rfl⟩
    obtain ⟨x', entry', same⟩ := before
    rw [same]
    rcases List.mem_append.mp told with old | new
    · exact judged.told j x' entry' p h o old
    · obtain ⟨rfl, rfl⟩ := steps.turn.returned new
      obtain rfl := Option.some.inj (entry'.symm.trans steps.entry)
      exact judged.fits j x' _ steps.entry steps.task
  · have sum := tally_set (Task.share world done) steps.entry steps.task { e with stage } t'
    rw [← steps.entries, ← steps.tasks, ← judged.dispatched] at sum
    change b'.dispatched = tally (Task.share world done) b'.entries b'.tasks
    omega

end Ascent.Judged

/-! ## Runs -/

section Runs

variable {world : σ} {done : List (String × Stage)} {entries entries' : List (Entry σ)}

theorem Verdicts.of_reset (verdicts : Verdicts world done entries)
    (same : entries'.map Entry.reset = entries.map Entry.reset) :
    Verdicts world done entries' := by
  have before {i : Nat} {e' : Entry σ} (entry' : entries'[i]? = some e') :
      ∃ e, entries[i]? = some e ∧ e.reset = e'.reset := by
    have here := congrArg (·[i]?) same
    simp only [List.getElem?_map, entry', Option.map_some] at here
    exact Option.map_eq_some_iff.mp here.symm
  have names := congrArg (List.map Entry.name) same
  rw [List.map_map, List.map_map] at names
  refine ⟨?_, verdicts.names.trans names.symm, ?_⟩
  · intro e' he'
    obtain ⟨i, entry'⟩ := List.getElem?_of_mem he'
    obtain ⟨e, entry, reset⟩ := before entry'
    have steady : e.reset.Steady := verdicts.steady e (List.mem_of_getElem? entry)
    rw [reset] at steady
    exact steady
  · intro i e' entry'
    obtain ⟨e, entry, reset⟩ := before entry'
    have judged : done[i]? = some (e.reset.name, e.reset.verdict world done) :=
      verdicts.each i e entry
    rw [reset] at judged
    exact judged

theorem Verdicts.inOrder (ordered : Context.Ordered entries) (steady : ∀ e ∈ entries, e.Steady) :
    Verdicts world (verdicts world entries) entries :=
  ⟨steady, verdicts_names world entries, fun _ _ entry => verdicts_getElem? ordered entry⟩

theorem tally_begin (f : Entry σ → Task → Nat) (none : ∀ e, f e (.entering .init) = 0)
    (entries : List (Entry σ)) : tally f entries (entries.map fun _ => .entering .init) = 0 := by
  induction entries with
  | nil => rfl
  | cons e entries ih => rw [List.map_cons, tally, none, ih]

theorem Ascent.judged_play (fresh : ∀ e ∈ entries, e.stage = .created)
    (verdicts : Verdicts world done entries) (permits : Nat) (attached : Bool)
    (schedule : List Nat) : (play entries permits attached world schedule).Judged world done := by
  have start : Judged world done ⟨BringUp.begin entries permits attached world, []⟩ := by
    refine ⟨?_, ?_, ?_⟩
    · intro i e t entry task
      obtain rfl := BringUp.begin_task (List.mem_of_getElem? task)
      exact fresh e (List.mem_of_getElem? entry)
    · intro _ _ _ _ _ _ told
      exact absurd told List.not_mem_nil
    · exact (tally_begin _ (fun _ => rfl) entries).symm
  refine (play_induction (P := fun a => a.Sound permits ∧ a.Judged world done ∧
    Verdicts world done a.now.entries)
    ⟨sound_begin entries permits attached world, start, verdicts⟩ ?_ schedule).2.1
  rintro a i e t ns stage t' b' ⟨sound, judged, known⟩ steps
  exact ⟨sound.step steps, judged.step sound known steps, known.of_reset steps.reset⟩

theorem tally_over (f : Entry σ → Task → Nat) {tasks : List Task}
    (paired : tasks.length = entries.length) (done : ∀ t ∈ tasks, t = .over) :
    tally f entries tasks = (entries.map fun e => f e .over).sum := by
  induction entries generalizing tasks with
  | nil => rfl
  | cons e entries ih =>
    cases tasks with
    | nil => simp at paired
    | cons t tasks =>
      have rest := ih (by simpa using paired) fun t ht => done t (List.mem_cons_of_mem _ ht)
      rw [tally, rest, done t (List.mem_cons_self ..), List.map_cons, List.sum_cons]

/-- When all tasks are done, the report is the one in document order. -/
theorem Ascent.Judged.report {a : Ascent σ} {workers : Nat} (judged : a.Judged world done)
    (sound : a.Sound workers) (verdicts : Verdicts world done a.now.entries)
    (finished : ∀ t ∈ a.now.tasks, t = .over) :
    a.now.report = ⟨done, LifecycleReport.failuresOf done,
      (a.now.entries.map fun e => e.dispatches world done).sum⟩ := by
  have length : a.now.entries.length = done.length := by
    have names := congrArg List.length verdicts.names
    simpa using names.symm
  have stages : (a.now.entries.map fun e => (e.name, e.stage)) = done := by
    refine List.ext_getElem? ?_
    intro i
    rw [List.getElem?_map]
    cases entry : a.now.entries[i]? with
    | none =>
      rw [List.getElem?_eq_none_iff] at entry
      exact (List.getElem?_eq_none_iff.mpr (by omega)).symm
    | some e =>
      have inside : i < a.now.tasks.length := by
        rw [sound.paired]
        exact (List.getElem?_eq_some_iff.mp entry).1
      have task := List.getElem?_eq_getElem inside
      have fits := judged.fits i e _ entry task
      rw [finished _ (List.getElem_mem inside)] at fits
      have stage : e.stage = e.verdict world done := fits
      rw [verdicts.each i e entry, Option.map_some, stage]
  have counted : a.now.dispatched = (a.now.entries.map fun e => e.dispatches world done).sum :=
    judged.dispatched.trans (tally_over _ sound.paired finished)
  rw [BringUp.report, stages, counted]

/-- The report of a state says that it is a success when every component is started,
if all of them are at final stages. -/
theorem BringUp.isSuccess_report (b : BringUp σ) (final : ∀ e ∈ b.entries, e.stage.isFinal = true) :
    b.report.isSuccess = true ↔ ∀ e ∈ b.entries, e.stage = .started := by
  rw [LifecycleReport.isSuccess, List.isEmpty_iff, report, LifecycleReport.failuresOf,
    List.filterMap_eq_nil_iff]
  constructor
  · intro none e he
    have here := none (e.name, e.stage) (List.mem_map.mpr ⟨e, he, rfl⟩)
    have last := final e he
    cases stage : e.stage <;> simp_all [Stage.isFinal]
  · intro all v hv
    obtain ⟨e, he, rfl⟩ := List.mem_map.mp hv
    rw [all e he]

end Runs

namespace Context

/-- Bringing up a context of new components in which whatever is depended on comes
earlier, and whose phase calls come to the same in every world: under every schedule,
as long as a component is neither started nor failed, some task can step; no schedule
goes on for ever; and when no task can step, every component is started or failed and
the report is the one in document order, which is a success exactly when every
component is started. So the run that is made ends with that report. -/
theorem bringUp_confluent (c : Context σ) (fresh : ∀ e ∈ c.entries, e.stage = .created)
    (ordered : Ordered c.entries) (steady : ∀ e ∈ c.entries, e.Steady) (workers : Nat)
    (attached : Bool) (world : σ) :
    let state (schedule : List Nat) :=
      (Ascent.play c.entries (max workers 1) attached world schedule).now
    let expected := LifecycleReport.inOrder world c.entries
    (∀ schedule, (∃ e ∈ (state schedule).entries, e.stage.isFinal = false) →
      ∃ i b, (state schedule).step? i = some b) ∧
    (∀ run : Nat → BringUp σ, run 0 = state [] → ¬ ∀ n, ∃ i, (run n).step? i = some (run (n + 1))) ∧
    (∀ schedule, (∀ i, (state schedule).step? i = none) →
      (∀ e ∈ (state schedule).entries, e.stage = .started ∨ ∃ reason, e.stage = .failed reason) ∧
      (state schedule).report = expected ∧
      (expected.isSuccess = true ↔ ∀ e ∈ (state schedule).entries, e.stage = .started)) ∧
    (∀ up, c.bringUp workers attached world = .ok up → up.report = expected) := by
  intro state expected
  have staffed : 0 < max workers 1 := by omega
  have sound (schedule : List Nat) :=
    Ascent.sound_play c.entries (max workers 1) attached world schedule
  have static (schedule : List Nat) :=
    Ascent.play_reset c.entries (max workers 1) attached world schedule
  have verdicts : Verdicts world (verdicts world c.entries) c.entries := .inOrder ordered steady
  have ordered' (schedule : List Nat) : Ordered (state schedule).entries :=
    ordered.of_reset (static schedule)
  have settled (schedule : List Nat) (stuck : ∀ i, (state schedule).step? i = none) :=
    (sound schedule).settled staffed (ordered' schedule) stuck
  have report (schedule : List Nat) (stuck : ∀ i, (state schedule).step? i = none) :
      (state schedule).report = expected := by
    have judged := Ascent.judged_play fresh verdicts (max workers 1) attached schedule
    rw [judged.report (sound schedule) (verdicts.of_reset (static schedule))
      (settled schedule stuck).1]
    have sums := congrArg (fun es => (es.map fun e =>
      e.dispatches world (Pipeworks.verdicts world c.entries)).sum) (static schedule)
    simp only [List.map_map] at sums
    exact congrArg (LifecycleReport.mk _ _) sums
  refine ⟨?_, ?_, ?_, ?_⟩
  · intro schedule
    exact (sound schedule).progress staffed (ordered' schedule)
  · intro run _
    exact BringUp.no_endless_run run
  · intro schedule stuck
    refine ⟨?_, report schedule stuck, ?_⟩
    · intro e he
      have final := (settled schedule stuck).2 e he
      cases stage : e.stage with
      | started => exact .inl rfl
      | failed reason => exact .inr ⟨reason, rfl⟩
      | _ => simp [stage, Stage.isFinal] at final
    · rw [← report schedule stuck]
      exact BringUp.isSuccess_report _ (settled schedule stuck).2
  · intro up done
    obtain ⟨schedule, run, stuck⟩ := Ascent.run_settles c.entries (max workers 1) attached world
    rw [Context.bringUp, reserve] at done
    split at done
    · obtain rfl := Outcome.ok.inj done
      rw [← report schedule stuck]
      exact congrArg BringUp.report run
    · simp [Outcome.map] at done

/-- A component whose first call fails, one that depends on it, and one with calls that
succeed. The world counts the calls. -/
def trio : Context Nat :=
  let fails : Component Nat :=
    { parallelInit := some fun n => ⟨[50], .failed (.failed "store" "no disk"), n + 1⟩ }
  let starts : Component Nat := { start := some fun n => ⟨[], .ok (), n + 1⟩ }
  let succeeds : Component Nat :=
    { starts with parallelInit := some fun n => ⟨[10, 90], .ok (), n + 1⟩ }
  ⟨"session",
    [.fresh "store" "knowledge" "files" fails ⟨"store", [], []⟩ [],
      .fresh "cache" "knowledge" "memory" starts ⟨"cache", [], []⟩ ["store", "elsewhere"],
      .fresh "shell" "output" "console" succeeds ⟨"shell", [], []⟩ []],
    none, false⟩

theorem trio_ordered : Ordered trio.entries := by
  intro i e entry name depends present
  match i, entry with
  | 0, entry | 2, entry =>
    obtain rfl := Option.some.inj entry
    exact absurd depends List.not_mem_nil
  | 1, entry =>
    obtain rfl := Option.some.inj entry
    rcases List.mem_cons.mp depends with rfl | depends
    · exact ⟨_, List.mem_cons_self .., rfl⟩
    · obtain rfl := List.mem_singleton.mp depends
      obtain ⟨d, hd, named⟩ := present
      simp [trio] at hd
      rcases hd with rfl | rfl | rfl <;> simp [Entry.fresh] at named

theorem trio_steady : ∀ e ∈ trio.entries, e.Steady := by
  intro e he p h world world'
  simp [trio] at he
  rcases he with rfl | rfl | rfl <;> cases p <;> cases h <;> rfl

/-- Whatever the schedule, the failure of the first component reaches the second one and
leaves the third alone; two calls are made with a permit. -/
theorem trio_confluent :
    (∀ e ∈ trio.entries, e.stage = .created) ∧ Ordered trio.entries ∧
    (∀ e ∈ trio.entries, e.Steady) ∧
    ∀ up, trio.bringUp 4 true 0 = .ok up →
      up.report.stages = [("store", .failed "component \"store\" failed: no disk"),
        ("cache", .failed "dependency \"store\" failed"), ("shell", .started)] ∧
      up.report.dispatched = 2 := by
  have fresh : ∀ e ∈ trio.entries, e.stage = .created := by
    intro e he
    simp [trio] at he
    rcases he with rfl | rfl | rfl <;> rfl
  refine ⟨fresh, trio_ordered, trio_steady, ?_⟩
  intro up done
  obtain ⟨-, -, -, report⟩ := bringUp_confluent trio fresh trio_ordered trio_steady 4 true 0
  rw [report up done]
  exact ⟨rfl, rfl⟩

end Context

end Pipeworks
