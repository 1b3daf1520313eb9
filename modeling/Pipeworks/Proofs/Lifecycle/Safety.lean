import Pipeworks.Proofs.Lifecycle.Turns

/-!
# Safety of a bring-up

Whatever the order of the steps and whatever the phase calls come to: stages only
move forward or to a failure, a start call runs only when the init phase of the
component has succeeded and everything it depends on is started, the halves of a
phase run one after the other, and there are never more calls at once than there
are permits, or than one in the lane.
-/

namespace Pipeworks

variable {σ : Type}

/-! ## Stages -/

/-- The moves of a stage. -/
inductive Stage.Next : Stage → Stage → Prop where
  | initializing : Next .created .initializing
  | initialized : Next .initializing .initialized
  | starting : Next .initialized .starting
  | started : Next .starting .started
  | failed {s : Stage} (unfinished : s.isFinal = false) (reason : String) : Next s (.failed reason)

theorem Stage.next_of_canBecome {s s' : Stage} (may : s.canBecome s' = true) : s.Next s' := by
  cases s' with
  | failed reason =>
    rw [canBecome_failed] at may
    exact .failed (by simpa using may) reason
  | _ =>
    cases s <;> first
      | constructor
      | simp [canBecome] at may

theorem Stage.Next.unfinished {s s' : Stage} (next : s.Next s') : s.isFinal = false := by
  cases next with
  | failed h => exact h
  | _ => rfl

namespace BringUp

variable {b b' : BringUp σ} {i : Nat} {e : Entry σ} {t t' : Task} {ns : List CallNote}
  {stage : Stage}

/-- A turn leaves the stage or moves it on. -/
theorem Turn.stage_next (turn : Turn b i e t ns stage t') :
    stage = e.stage ∨ e.stage.Next stage := by
  cases turn with
  | entered may | skipped may => exact .inr (Stage.next_of_canBecome may)
  | initialized may | started may => exact .inr (Stage.next_of_canBecome may)
  | failed may => exact .inr (.failed may _)
  | _ => exact .inl rfl

theorem Turn.stays (turn : Turn b i e t ns stage t') (started : e.stage = .started) :
    stage = .started := by
  rcases turn.stage_next with same | next
  · exact same.trans started
  · have := next.unfinished
    rw [started] at this
    exact absurd this nofun

theorem Steps.stages (steps : b.Steps i e t ns stage t' b') {j : Nat} {x x' : Entry σ}
    (before : b.entries[j]? = some x) (after : b'.entries[j]? = some x') :
    x'.stage = x.stage ∨ x.stage.Next x'.stage := by
  rw [steps.entries, List.getElem?_set] at after
  by_cases here : i = j
  · subst here
    obtain rfl := Option.some.inj (steps.entry.symm.trans before)
    have inside := (List.getElem?_eq_some_iff.mp before).1
    rw [if_pos rfl, if_pos inside] at after
    obtain rfl := Option.some.inj after
    exact steps.turn.stage_next
  · rw [if_neg here] at after
    obtain rfl := Option.some.inj (before.symm.trans after)
    exact .inl rfl

end BringUp

/-! ## Dependencies -/

/-- Everything of some names that there is has been started. -/
def AllStarted (entries : List (Entry σ)) (names : List String) : Prop :=
  ∀ name ∈ names, ∀ d, Context.find? entries name = some d → d.stage = .started

theorem Context.find?_set {entries : List (Entry σ)} {i : Nat} {e d' : Entry σ} {stage : Stage}
    {name : String} (entry : entries[i]? = some e)
    (found : find? (entries.set i { e with stage }) name = some d') :
    ∃ d, find? entries name = some d ∧ (d' = d ∨ d = e ∧ d' = { e with stage }) := by
  induction entries generalizing i with
  | nil => simp at entry
  | cons first rest ih =>
    cases i with
    | zero =>
      obtain rfl := Option.some.inj entry
      simp only [find?, List.set_cons_zero, List.find?_cons] at found ⊢
      by_cases here : (first.name == name) = true
      · simp only [here, Option.some.injEq] at found ⊢
        exact ⟨first, rfl, .inr ⟨rfl, found.symm⟩⟩
      · simp only [here] at found ⊢
        exact ⟨d', found, .inl rfl⟩
    | succ i =>
      simp only [find?, List.set_cons_succ, List.find?_cons] at found ⊢
      by_cases here : (first.name == name) = true
      · simp only [here, Option.some.injEq] at found ⊢
        exact ⟨first, rfl, .inl found.symm⟩
      · simp only [here] at found ⊢
        exact ih entry found

theorem AllStarted.step {b b' : BringUp σ} {i : Nat} {e : Entry σ} {t t' : Task}
    {ns : List CallNote} {stage : Stage} {names : List String}
    (all : AllStarted b.entries names) (steps : b.Steps i e t ns stage t' b') :
    AllStarted b'.entries names := by
  intro name hname d' found
  rw [steps.entries] at found
  obtain ⟨d, before, rfl | ⟨rfl, rfl⟩⟩ := Context.find?_set steps.entry found
  · exact all name hname d' before
  · exact steps.turn.stays (all name hname d before)

/-! ## The calls of one component -/

def CallNote.index : CallNote → Nat
  | begun i _ _ | returned i _ _ _ => i

/-- The calls of one component. -/
def trail (i : Nat) (calls : List CallNote) : List CallNote := calls.filter (·.index = i)

theorem mem_of_trail {i : Nat} {n : CallNote} {calls c : List CallNote} (made : trail i calls = c)
    (hn : n ∈ c) : n ∈ calls := by
  rw [← made] at hn
  exact (List.mem_filter.mp hn).1

/-- A call that succeeded. -/
def success (i : Nat) (p : Phase) (h : Half) : List CallNote :=
  [.begun i p h, .returned i p h (.ok ())]

namespace Entry

/-- The successful calls of a phase before a half of it. -/
def earlier (e : Entry σ) (i : Nat) (p : Phase) : Half → List CallNote
  | .parallel => []
  | .sequential => if e.has (Half.capability p .parallel) then success i p .parallel else []

/-- The calls of a phase, all of them successful. -/
def whole (e : Entry σ) (i : Nat) (p : Phase) : List CallNote :=
  e.earlier i p .sequential ++
    if e.has (Half.capability p .sequential) then success i p .sequential else []

/-- The successful calls of the phase before. -/
def prior (e : Entry σ) (i : Nat) : Phase → List CallNote
  | .init => []
  | .start => e.whole i .init

theorem mem_earlier {e : Entry σ} {p : Phase} (has : e.has (Half.capability p .parallel) = true)
    (i : Nat) : .returned i p .parallel (.ok ()) ∈ e.earlier i p .sequential := by
  simp [earlier, has, success]

theorem mem_whole {e : Entry σ} {p : Phase} {h : Half} (has : e.has (Half.capability p h) = true)
    (i : Nat) : .returned i p h (.ok ()) ∈ e.whole i p := by
  cases h with
  | parallel => exact List.mem_append_left _ (mem_earlier has i)
  | sequential => simp [whole, has, success]

/-- A phase begins only when everything that its component depends on is started, if it
is the start phase. -/
def Ready (entries : List (Entry σ)) (e : Entry σ) : Phase → Prop
  | .init => True
  | .start => AllStarted entries e.dependencies

end Entry

/-- What holds of a component when its task is where it is. -/
inductive Task.Sound (entries : List (Entry σ)) (calls : List CallNote) (i : Nat) (e : Entry σ) :
    Task → Prop where
  | fresh (made : trail i calls = []) : Sound entries calls i e (.entering .init)
  | wanting {p h} (stage : e.stage = .running p) (has : e.has (Half.capability p h) = true)
      (ready : e.Ready entries p) (made : trail i calls = e.prior i p ++ e.earlier i p h) :
      Sound entries calls i e (.wanting p h)
  | calling {p h reports o} (stage : e.stage = .running p)
      (has : e.has (Half.capability p h) = true) (ready : e.Ready entries p)
      (made : trail i calls = e.prior i p ++ e.earlier i p h ++ [.begun i p h]) :
      Sound entries calls i e (.calling p h reports o)
  | leaving {p} (stage : e.stage = .running p) (ready : e.Ready entries p)
      (made : trail i calls = e.prior i p ++ e.whole i p) :
      Sound entries calls i e (.leaving p)
  | waiting (past : List String) {left} (stage : e.stage = .initialized)
      (split : e.dependencies = past ++ left) (started : AllStarted entries past)
      (made : trail i calls = e.whole i .init) :
      Sound entries calls i e (.waiting left)
  | again (stage : e.stage = .initialized) (ready : e.Ready entries .start)
      (made : trail i calls = e.whole i .init) : Sound entries calls i e (.entering .start)
  | failing {p reason} : Sound entries calls i e (.failing p reason)
  | ended (final : e.stage.isFinal = true) : Sound entries calls i e .over

namespace Task.Sound

variable {entries : List (Entry σ)} {calls : List CallNote} {i : Nat} {e : Entry σ}

theorem trail_append (i : Nat) (calls ns : List CallNote) :
    trail i (calls ++ ns) = trail i calls ++ trail i ns :=
  List.filter_append ..

/-- A task that is about to begin a phase has the phases before behind it. -/
theorem entering {p : Phase} (sound : Sound entries calls i e (.entering p)) :
    e.Ready entries p ∧ trail i calls = e.prior i p := by
  cases sound with
  | fresh made => exact ⟨trivial, made⟩
  | again stage ready made => exact ⟨ready, made⟩

/-- The component that steps. -/
theorem step {b b' : BringUp σ} {t t' : Task} {ns : List CallNote} {stage : Stage}
    (sound : Sound b.entries calls i e t) (steps : b.Steps i e t ns stage t' b') :
    Sound b'.entries (calls ++ ns) i { e with stage } t' := by
  have still (p : Phase) (ready : e.Ready b.entries p) : e.Ready b'.entries p := by
    cases p with
    | init => trivial
    | start => exact ready.step steps
  have added {c : List CallNote} (made : trail i calls = c) (own : trail i ns = ns) :
      trail i (calls ++ ns) = c ++ ns := by
    rw [trail_append, made, own]
  have self (l : List CallNote) : l ++ [] = l := List.append_nil l
  cases steps.turn with
  | refused | barred | broken | blocked => exact .failing
  | failed | started => exact .ended rfl
  | tooLate final => exact .ended final
  | @entered p h may has first =>
    obtain ⟨ready, made⟩ := sound.entering
    have none : e.earlier i p h = [] := by
      cases h with
      | parallel => rfl
      | sequential => simp [Entry.earlier, first rfl]
    refine .wanting rfl has (still p ready) ((added made rfl).trans ?_)
    exact congrArg (e.prior i p ++ ·) none.symm
  | @skipped p may none =>
    obtain ⟨ready, made⟩ := sound.entering
    have nothing : e.whole i p = [] := by simp [Entry.whole, Entry.earlier, none]
    refine .leaving rfl (still p ready) ((added made rfl).trans ?_)
    exact congrArg (e.prior i p ++ ·) nothing.symm
  | called free =>
    cases sound with
    | wanting here has ready made =>
      exact .calling here has (still _ ready) (added made (by simp [trail, CallNote.index]))
  | reported =>
    cases sound with
    | calling here has ready made =>
      exact .calling here has (still _ ready) ((added made rfl).trans (self _))
  | @halved p more =>
    cases sound with
    | calling here has ready made =>
      have own := added made (by simp [trail, CallNote.index])
      refine .wanting here more (still _ ready) (own.trans ?_)
      have has : e.has (Half.capability p .parallel) = true := has
      change _ = e.prior i p ++ e.earlier i p .sequential
      simp [Entry.earlier, has, success]
  | @ended p h last =>
    cases sound with
    | calling here has ready made =>
      refine .leaving here (still _ ready) ((added made (by simp [trail, CallNote.index])).trans ?_)
      change _ = e.prior i p ++ e.whole i p
      cases h with
      | parallel =>
        simp [Entry.whole, Entry.earlier, has, last rfl, success]
      | sequential =>
        simp [Entry.whole, has, success]
  | initialized =>
    cases sound with
    | leaving here ready made =>
      exact .waiting [] rfl rfl nofun ((added made rfl).trans (self _))
  | ready =>
    cases sound with
    | waiting past here split started made =>
      rw [List.append_nil] at split
      refine .again here ?_ ((added made rfl).trans (self _))
      exact split ▸ started.step steps
  | @passed name left fine =>
    cases sound with
    | waiting past here split started made =>
      refine .waiting (past ++ [name]) here (by rw [split]; simp) ?_
        ((added made rfl).trans (self _))
      refine AllStarted.step ?_ steps
      intro n hn d found
      rcases List.mem_append.mp hn with hn | hn
      · exact started n hn d found
      · obtain rfl := List.mem_singleton.mp hn
        exact fine d found

/-- A component that does not step. -/
theorem other {b b' : BringUp σ} {t t' : Task} {ns : List CallNote} {stage : Stage} {j : Nat}
    {x : Entry σ} {u : Task} (sound : Sound b.entries calls j x u)
    (steps : b.Steps i e t ns stage t' b') (ne : i ≠ j) :
    Sound b'.entries (calls ++ ns) j x u := by
  have still (p : Phase) (ready : x.Ready b.entries p) : x.Ready b'.entries p := by
    cases p with
    | init => trivial
    | start => exact ready.step steps
  have foreign : trail j ns = [] := by
    cases steps.turn <;> simp [trail, CallNote.index, ne]
  have same : trail j (calls ++ ns) = trail j calls := by
    rw [trail_append, foreign, List.append_nil]
  cases sound with
  | fresh made => exact .fresh (same.trans made)
  | wanting here has ready made => exact .wanting here has (still _ ready) (same.trans made)
  | calling here has ready made => exact .calling here has (still _ ready) (same.trans made)
  | leaving here ready made => exact .leaving here (still _ ready) (same.trans made)
  | waiting past here split started made =>
    exact .waiting past here split (started.step steps) (same.trans made)
  | again here ready made => exact .again here (still .start ready) (same.trans made)
  | failing => exact .failing
  | ended final => exact .ended final

end Task.Sound

/-! ## Permits and the lane -/

def Task.isIn (h : Half) : Task → Bool
  | .calling _ h' _ _ => h' == h
  | _ => false

/-- The calls of a half that run at the same time. -/
def BringUp.calls (b : BringUp σ) (h : Half) : Nat := b.tasks.countP (Task.isIn h)

/-- Every permit is free or taken by a call, and so is the lane. -/
structure BringUp.Balanced (workers : Nat) (b : BringUp σ) : Prop where
  permits : b.permits + b.calls .parallel = workers
  lane : b.calls .sequential = if b.laneFree then 0 else 1

namespace BringUp

variable {b b' : BringUp σ} {i : Nat} {e : Entry σ} {t t' : Task} {ns : List CallNote}
  {stage : Stage} {workers : Nat}

theorem calls_set (h : Half) (steps : b.Steps i e t ns stage t' b') :
    b'.calls h + (if t.isIn h then 1 else 0) = b.calls h + (if t'.isIn h then 1 else 0) := by
  obtain ⟨inside, rfl⟩ := List.getElem?_eq_some_iff.mp steps.task
  have one : (if b.tasks[i].isIn h then 1 else 0) ≤ b.calls h := by
    split
    · rename_i made
      exact List.countP_pos_iff.mpr ⟨_, List.getElem_mem inside, made⟩
    · exact Nat.zero_le _
  have changed : b'.calls h =
      b.calls h - (if b.tasks[i].isIn h then 1 else 0) + (if t'.isIn h then 1 else 0) := by
    rw [calls, steps.tasks, List.countP_set inside]
    rfl
  omega

theorem Balanced.step (balanced : b.Balanced workers) (steps : b.Steps i e t ns stage t' b') :
    b'.Balanced workers := by
  obtain ⟨permits, lane⟩ := balanced
  have parallel := calls_set .parallel steps
  have sequential := calls_set .sequential steps
  have permits' : b'.permits = (ns.foldl Shared.note b.shared).permits :=
    congrArg Shared.permits steps.shared
  have lane' : b'.laneFree = (ns.foldl Shared.note b.shared).laneFree :=
    congrArg Shared.laneFree steps.shared
  -- Only the beginning and the end of a call change what is free, and the task with it.
  have quiet (idle : ns = []) (same : ∀ h, t'.isIn h = t.isIn h) : b'.Balanced workers := by
    subst idle
    rw [same] at parallel sequential
    constructor
    · rw [permits', Nat.add_right_cancel parallel]
      exact permits
    · rw [lane', Nat.add_right_cancel sequential]
      exact lane
  have returned {p h o} (done : ns = [.returned i p h o]) (before : ∀ h', t.isIn h' = (h == h'))
      (after : ∀ h', t'.isIn h' = false) : b'.Balanced workers := by
    subst done
    rw [before, after] at parallel sequential
    cases h with
    | parallel =>
      simp only [List.foldl_cons, List.foldl_nil, Shared.note, shared] at permits' lane'
      simp at parallel sequential
      refine ⟨by omega, ?_⟩
      rw [lane', sequential, lane]
    | sequential =>
      simp only [List.foldl_cons, List.foldl_nil, Shared.note, shared] at permits' lane'
      simp at parallel sequential
      refine ⟨by omega, ?_⟩
      rw [lane', if_pos rfl]
      split at lane <;> omega
  cases steps.turn with
  | @called p h free =>
    simp only [List.foldl_cons, List.foldl_nil, shared] at permits' lane'
    cases h with
    | parallel =>
      simp [mayCall] at free
      simp only [Shared.note] at permits' lane'
      simp [Task.isIn] at parallel sequential
      refine ⟨by omega, ?_⟩
      rw [lane', sequential, lane]
    | sequential =>
      simp [mayCall] at free
      simp only [Shared.note] at permits' lane'
      simp [Task.isIn] at parallel sequential
      refine ⟨by omega, ?_⟩
      rw [free, if_pos rfl] at lane
      rw [lane', if_neg Bool.false_ne_true]
      omega
  | broken => exact returned rfl (fun _ => rfl) (fun _ => rfl)
  | halved => exact returned rfl (fun _ => rfl) (fun _ => rfl)
  | ended => exact returned rfl (fun _ => rfl) (fun _ => rfl)
  | _ => exact quiet rfl fun _ => rfl

end BringUp

/-! ## Runs -/

/-- What holds of a bring-up under any schedule. -/
structure Ascent.Sound (workers : Nat) (a : Ascent σ) : Prop where
  paired : a.now.tasks.length = a.now.entries.length
  each : ∀ j x u, a.now.entries[j]? = some x → a.now.tasks[j]? = some u →
    Task.Sound a.now.entries a.calls j x u
  balanced : a.now.Balanced workers

namespace BringUp

variable {b b' : BringUp σ} {i : Nat} {e : Entry σ} {t t' : Task} {ns : List CallNote}
  {stage : Stage}

/-- After a step the component and the task at a position are the new ones, or those
from before. -/
theorem Steps.at (steps : b.Steps i e t ns stage t' b') {j : Nat} {x : Entry σ} {u : Task}
    (entry : b'.entries[j]? = some x) (task : b'.tasks[j]? = some u) :
    (j = i ∧ x = { e with stage } ∧ u = t') ∨
      (i ≠ j ∧ b.entries[j]? = some x ∧ b.tasks[j]? = some u) := by
  rw [steps.entries, List.getElem?_set] at entry
  rw [steps.tasks, List.getElem?_set] at task
  by_cases here : i = j
  · subst here
    have inside := (List.getElem?_eq_some_iff.mp steps.entry).1
    have inside' := (List.getElem?_eq_some_iff.mp steps.task).1
    rw [if_pos rfl, if_pos inside] at entry
    rw [if_pos rfl, if_pos inside'] at task
    exact .inl ⟨rfl, (Option.some.inj entry).symm, (Option.some.inj task).symm⟩
  · rw [if_neg here] at entry task
    exact .inr ⟨here, entry, task⟩

theorem begin_task {entries : List (Entry σ)} {permits : Nat} {attached : Bool} {world : σ}
    {u : Task} (task : u ∈ (begin entries permits attached world).tasks) :
    u = .entering .init := by
  obtain ⟨_, -, rfl⟩ := List.mem_map.mp task
  rfl

end BringUp

namespace Ascent

theorem sound_begin (entries : List (Entry σ)) (permits : Nat) (attached : Bool) (world : σ) :
    Sound permits ⟨BringUp.begin entries permits attached world, []⟩ where
  paired := List.length_map ..
  each j x u entry task := by
    obtain rfl := BringUp.begin_task (List.mem_of_getElem? task)
    exact .fresh rfl
  balanced := by
    have none (h : Half) : (BringUp.begin entries permits attached world).calls h = 0 := by
      rw [BringUp.calls, List.countP_eq_zero]
      intro u hu
      rw [BringUp.begin_task hu]
      exact Bool.false_ne_true
    exact ⟨by rw [none]; rfl, none .sequential⟩

theorem Sound.step {a : Ascent σ} {workers i : Nat} {e : Entry σ} {t t' : Task}
    {ns : List CallNote} {stage : Stage} {b' : BringUp σ} (sound : a.Sound workers)
    (steps : a.now.Steps i e t ns stage t' b') : Sound workers ⟨b', a.calls ++ ns⟩ := by
  refine ⟨?_, ?_, sound.balanced.step steps⟩
  · rw [steps.entries, steps.tasks, List.length_set, List.length_set]
    exact sound.paired
  · intro j x u entry task
    rcases steps.at entry task with ⟨rfl, rfl, rfl⟩ | ⟨ne, entry, task⟩
    · exact (sound.each j e t steps.entry steps.task).step steps
    · exact (sound.each j x u entry task).other steps ne

theorem sound_play (entries : List (Entry σ)) (permits : Nat) (attached : Bool) (world : σ)
    (schedule : List Nat) : (play entries permits attached world schedule).Sound permits :=
  play_induction (sound_begin entries permits attached world)
    (fun _ _ _ _ _ _ _ _ sound steps => sound.step steps) schedule

/-- Under every schedule, with any number of workers and whatever the phase calls come
to:
a start call of a component runs only when its stage is `starting`, all calls of its init
phase have succeeded, and everything that it depends on is started;
a sequential call runs only when the parallel call of the phase has succeeded, and a
parallel call only when the sequential call of the phase has not begun;
at most as many parallel calls run at once as there are workers, and at most one
sequential call;
and the next step leaves every stage or moves it on. -/
theorem safe_under_every_schedule (entries : List (Entry σ)) (workers : Nat) (attached : Bool)
    (world : σ) (schedule : List Nat) :
    let a := play entries (max workers 1) attached world schedule
    (∀ i e h reports o, a.now.entries[i]? = some e →
      a.now.tasks[i]? = some (.calling .start h reports o) →
      e.stage = .starting ∧
      (∀ h', e.has (Half.capability .init h') = true →
        .returned i .init h' (.ok ()) ∈ a.calls) ∧
      AllStarted a.now.entries e.dependencies) ∧
    (∀ i e p reports o, a.now.entries[i]? = some e →
      a.now.tasks[i]? = some (.calling p .sequential reports o) →
      e.has (Half.capability p .parallel) = true →
      .returned i p .parallel (.ok ()) ∈ a.calls) ∧
    (∀ i e p reports o, a.now.entries[i]? = some e →
      a.now.tasks[i]? = some (.calling p .parallel reports o) →
      .begun i p .sequential ∉ a.calls) ∧
    a.now.calls .parallel ≤ max workers 1 ∧
    a.now.calls .sequential ≤ 1 ∧
    (∀ (j i : Nat) (e e' : Entry σ), a.now.entries[i]? = some e →
      (a.step j).now.entries[i]? = some e' → e'.stage = e.stage ∨ e.stage.Next e'.stage) := by
  intro a
  have sound : a.Sound (max workers 1) := sound_play entries (max workers 1) attached world schedule
  refine ⟨?_, ?_, ?_, ?_, ?_, ?_⟩
  · intro i e h reports o entry task
    cases sound.each i e _ entry task with
    | calling stage has ready made =>
      refine ⟨stage, fun h' has' => mem_of_trail made ?_, ready⟩
      exact List.mem_append_left _ (List.mem_append_left _ (Entry.mem_whole has' i))
  · intro i e p reports o entry task parallel
    cases sound.each i e _ entry task with
    | calling stage has ready made =>
      apply mem_of_trail made
      exact List.mem_append_left _ (List.mem_append_right _ (Entry.mem_earlier parallel i))
  · intro i e p reports o entry task begun
    cases sound.each i e _ entry task with
    | calling stage has ready made =>
      have own : CallNote.begun i p .sequential ∈ trail i a.calls :=
        List.mem_filter.mpr ⟨begun, decide_eq_true rfl⟩
      rw [made] at own
      cases p with
      | init => simp [Entry.prior, Entry.earlier] at own
      | start =>
        simp only [Entry.prior, Entry.whole, Entry.earlier, success] at own
        split at own <;> split at own <;> simp at own
  · have permits := sound.balanced.permits
    omega
  · have lane := sound.balanced.lane
    split at lane <;> omega
  · intro j i e e' before after
    rw [step] at after
    cases next : a.now.step? j with
    | none =>
      simp only [next] at after
      exact .inl (congrArg Entry.stage (Option.some.inj (before.symm.trans after)).symm)
    | some b =>
      simp only [next] at after
      obtain ⟨_, _, _, _, steps⟩ := BringUp.steps_of_step? next
      exact steps.stages before after

end Ascent

end Pipeworks
