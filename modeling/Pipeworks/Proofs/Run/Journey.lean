import Pipeworks.Proofs.Run.Closing
import Pipeworks.Proofs.Run.Rendering
import Pipeworks.Proofs.Run.Rest

/-!
# No component is closed in a call

A journey is a whole run of the components of a context: they are brought up, then driven as a chain
or over the bus, and closed in the end. The tasks, the worker, the dispatchers, tracked work and the
main task take their steps in any order, and the run may be interrupted at any moment; whatever has
not ended goes on while components are closed. What keeps the close calls apart from all other calls
is that closing begins only after each of them was waited for.
-/

namespace Pipeworks

open Config

variable {σ : Type}

/-! ## Journeys -/

/-- What drives the components once they are up. -/
inductive Carrier (σ : Type) where
  | none
  | chain (line : Line σ) (c : Chain σ)
  | loop (feed : Feed σ) (l : Loop σ)

/-- The state of a run of the components of a context. -/
structure Journey (σ : Type) where
  bringUp : BringUp σ
  /-- Whether the run was interrupted before the components are driven. -/
  interrupted : Bool
  carrier : Carrier σ
  /-- Once closing has begun, the components that are still to be closed. -/
  closing : Option (List (Entry σ))

/-- A step of a run. -/
inductive JourneyStep where
  /-- A step of the task that brings a component up. -/
  | task (i : Nat)
  | interrupt
  /-- Bringing up has ended. -/
  | drive
  | chain (s : ChainStep)
  | loop (s : LoopStep)
  /-- The main task begins to close the components. -/
  | leave
  /-- The next component is closed. -/
  | close

namespace Journey

/-- The state before the first step. -/
def begin (c : Context σ) (workers : Nat) (attached : Bool) (world : σ) : Journey σ :=
  ⟨.begin c.entries (max workers 1) attached world, false, .none, none⟩

/-- Begin to close the components, the latest first. -/
def shut (j : Journey σ) : Journey σ :=
  { j with closing := some j.bringUp.entries.reverse }

/-- Change the world that all components act on. -/
def act (j : Journey σ) (f : σ → σ) : Journey σ :=
  match j.carrier with
  | .none => { j with bringUp := { j.bringUp with world := f j.bringUp.world } }
  | .chain line c => { j with carrier := .chain line { c with world := f c.world } }
  | .loop feed l =>
    let floor := { l.exchange.floor with world := f l.exchange.floor.world }
    { j with carrier := .loop feed { l with exchange := { l.exchange with floor } } }

/-- Go on after the components of a context have been brought up. -/
def embark (c : Context σ) (settings : RunSettings) (j : Journey σ) : Journey σ :=
  let c := { c with entries := j.bringUp.entries }
  if j.bringUp.report.isSuccess then
    match c.input with
    | .error _ => j.shut
    | .ok input =>
      match settings.mode with
      | .sequential =>
        let line := lineOf c input settings.exitToken settings.policy.shutdownGrace
        { j with carrier := .chain line (.begin j.interrupted j.bringUp.world) }
      | .bus =>
        match register c (.fresh settings.policy j.bringUp.world) with
        | (.ok (), exchange) =>
          { j with carrier := .loop (feedOf c input settings.exitToken)
                    (loopOn exchange j.interrupted) }
        | (_, exchange) => (j.act fun _ => exchange.floor.world).shut
  else j.shut

/-- One step of a run, if it can be taken. -/
def step? (c : Context σ) (settings : RunSettings) (j : Journey σ) :
    JourneyStep → Option (Journey σ)
  | .task i => (j.bringUp.step? i).map fun bringUp => { j with bringUp }
  | .interrupt => some { j with interrupted := true }
  | .drive =>
    match j.carrier, j.closing, j.bringUp.advance? with
    | .none, none, none => some (j.embark c settings)
    | _, _, _ => none
  | .chain s =>
    match j.carrier with
    | .chain line c => (c.step? line s).map fun c => { j with carrier := .chain line c }
    | _ => none
  | .loop s =>
    match j.carrier with
    | .loop feed l => (l.step? feed s).map fun l => { j with carrier := .loop feed l }
    | _ => none
  | .leave =>
    match j.closing, j.carrier with
    | none, .chain _ c =>
      match c.watch with
      | .leaving _ _ => some j.shut
      | _ => none
    | none, .loop _ l =>
      match l.exchange.closing with
      | .closed _ => some j.shut
      | _ => none
    | _, _ => none
  | .close =>
    match j.closing with
    | some (e :: rest) =>
      some { j.act fun world => (e.component.close world).world with closing := some rest }
    | _ => none

/-- A step that is not possible changes nothing. -/
def step (c : Context σ) (settings : RunSettings) (j : Journey σ) (s : JourneyStep) : Journey σ :=
  (j.step? c settings s).getD j

/-- A run after a schedule of steps. -/
def play (c : Context σ) (settings : RunSettings) (attached : Bool) (world : σ)
    (schedule : List JourneyStep) : Journey σ :=
  schedule.foldl (step c settings) (begin c settings.workers attached world)

end Journey

/-! ## Calls and times of grace -/

/-- Whether a phase call of the component goes on. -/
def Task.inCall : Task → Bool
  | .calling .. => true
  | _ => false

/-- Whether the subscriber may be in a call. -/
def Dispatcher.isBusy (d : Dispatcher σ) : Bool :=
  match d.post with
  | .handling .. => true
  | _ => false

/-- Whether a pull goes on. -/
def LoopPlace.inCall : LoopPlace → Bool
  | .pulling .. | .settling .. => true
  | _ => false

/-- Whether a pull goes on, a subscriber is handling an event or tracked work is under way. -/
def Loop.inCall (l : Loop σ) : Bool :=
  l.place.inCall || l.exchange.dispatchers.any (·.isBusy) || !l.exchange.floor.tasks.isEmpty

namespace Carrier

/-- Whether some component may be in a call. -/
def inCall : Carrier σ → Bool
  | .none => false
  | .chain _ c => c.place.inCall
  | .loop _ l => l.inCall

/-- Whether something was not waited for to its end: the worker of a chain, the last pull of a main
loop, a dispatcher or tracked work. -/
def timedOut : Carrier σ → Bool
  | .none => false
  | .chain _ c =>
    match c.watch with
    | .leaving _ inTime => !inTime
    | _ => false
  | .loop _ l =>
    (match l.place with
      | .stopping _ inTime => !inTime
      | _ => false) ||
    match l.exchange.closing with
    | .closed r => r.dispatchersAborted != 0 || r.tasksAborted != 0
    | _ => false

end Carrier

/-- Whether some component may be in a call other than one to close it. -/
def Journey.inCall (j : Journey σ) : Bool :=
  j.bringUp.tasks.any Task.inCall || j.carrier.inCall

/-! ## What has been waited for -/

namespace Carrier

/-- What has been waited for has ended. -/
def Rests : Carrier σ → Prop
  | .none => True
  | .chain _ c => c.Rests
  | .loop _ l => l.Rests

/-- The main task has waited for everything. -/
def IsLeft : Carrier σ → Prop
  | .none => True
  | .chain _ c => ∃ exit inTime, c.watch = .leaving exit inTime
  | .loop _ l => ∃ r, l.exchange.closing = .closed r

/-- What is left is idle, unless it was not waited for to its end. -/
theorem Rests.idle {carrier : Carrier σ} (rests : carrier.Rests) (left : carrier.IsLeft) :
    carrier.timedOut = true ∨ carrier.inCall = false := by
  cases carrier with
  | none => exact .inr rfl
  | chain line c =>
    have rests : c.Rests := rests
    obtain ⟨exit, inTime, left⟩ := left
    cases inTime with
    | false => exact .inl (by simp [timedOut, left])
    | true =>
      obtain ⟨reason, stopped⟩ := rests exit left
      exact .inr (by simp [inCall, stopped, Place.inCall])
  | loop feed l =>
    have rests : l.Rests := rests
    obtain ⟨r, closed⟩ := left
    by_cases whole : r.dispatchersAborted = 0
    · right
      obtain ⟨exit, inTime, stopping⟩ := rests.left (by simp [closed])
      have ended := rests.exchange.joined (by rw [closed]; exact whole)
      rw [closed, Closing.joined, List.take_length] at ended
      have lazy : l.exchange.dispatchers.any (·.isBusy) = false := by
        rw [List.any_eq_false]
        intro d hd busy
        have gone := ended d hd
        rw [Dispatcher.isBusy] at busy
        rw [Dispatcher.hasEnded] at gone
        cases post : d.post <;> simp [post] at busy gone
      simp [inCall, Loop.inCall, stopping, LoopPlace.inCall, lazy,
        rests.exchange.idle r closed whole]
    · exact .inl (by simp [timedOut, closed, whole])

end Carrier

namespace Journey

variable {c : Context σ} {settings : RunSettings} {attached : Bool} {world : σ} {j j' : Journey σ}

/-- What holds of a run: the bring-up goes on as long as nothing drives the components and none is
closed, and afterwards all its tasks are over; and closing begins when the main task has waited for
everything. -/
structure Sound (c : Context σ) (workers : Nat) (attached : Bool) (world : σ) (j : Journey σ) :
    Prop where
  climbs : j.carrier = .none → j.closing = none →
    (BringUp.begin c.entries (max workers 1) attached world).Leads j.bringUp
  up : j.carrier ≠ .none ∨ j.closing ≠ none → ∀ t ∈ j.bringUp.tasks, t = .over
  rests : j.carrier.Rests
  left : j.closing ≠ none → j.carrier.IsLeft

theorem sound_begin (c : Context σ) (workers : Nat) (attached : Bool) (world : σ) :
    Sound c workers attached world (begin c workers attached world) where
  climbs _ _ := .refl _
  up later := by simp [begin] at later
  rests := trivial
  left later := absurd rfl later

/-- A change of the world changes nothing else. -/
theorem act_same (j : Journey σ) (f : σ → σ) :
    (j.act f).bringUp.tasks = j.bringUp.tasks ∧
      (j.carrier.Rests → (j.act f).carrier.Rests) ∧
      (j.carrier.IsLeft → (j.act f).carrier.IsLeft) := by
  cases carrier : j.carrier with
  | none =>
    simp only [act, carrier]
    exact ⟨trivial, id, id⟩
  | chain line c =>
    simp only [act, carrier]
    exact ⟨trivial, id, id⟩
  | loop feed l =>
    simp only [act, carrier]
    exact ⟨trivial, fun rests => ⟨rests.left, rests.exchange.keep rfl rfl rfl⟩, id⟩

/-- Where all tasks are over, none can take a step. -/
theorem step?_of_over {b : BringUp σ} (ended : ∀ t ∈ b.tasks, t = .over) (i : Nat) :
    b.step? i = none := by
  rw [BringUp.step?]
  cases b.entries[i]? with
  | none => rfl
  | some e =>
    cases task : b.tasks[i]? with
    | none => rfl
    | some t =>
      rw [ended t (List.mem_of_getElem? task)]
      rfl

/-- When no task of a bring-up can take a step, all of them are over. -/
theorem over_of_leads (ordered : Context.Ordered c.entries) {workers : Nat} {b : BringUp σ}
    (leads : (BringUp.begin c.entries (max workers 1) attached world).Leads b)
    (stuck : ∀ i, b.step? i = none) : ∀ t ∈ b.tasks, t = .over := by
  obtain ⟨schedule, rfl⟩ := leads
  rw [← Ascent.now_play] at stuck ⊢
  have sound := Ascent.sound_play c.entries (max workers 1) attached world schedule
  have ordered := ordered.of_reset
    (Ascent.play_reset c.entries (max workers 1) attached world schedule)
  exact (sound.settled (by omega) ordered stuck).1

/-- What becomes of a run whose bring-up has ended. -/
inductive Embarked (j : Journey σ) : Journey σ → Prop where
  | closes {j' : Journey σ} (tasks : j'.bringUp.tasks = j.bringUp.tasks)
      (carrier : j'.carrier = .none) (closing : j'.closing ≠ none) : Embarked j j'
  | drives {carrier : Carrier σ} (some : carrier ≠ .none) (rests : carrier.Rests) :
      Embarked j { j with carrier }

theorem embarked_embark (c : Context σ) (settings : RunSettings) (before : j.carrier = .none) :
    Embarked j (j.embark c settings) := by
  have closes : Embarked j j.shut := .closes rfl before nofun
  rw [embark]
  split
  · split
    · exact closes
    · split
      · exact .drives nofun (Chain.rests_begin _ _)
      · split
        · rename_i registered
          exact .drives nofun (Loop.rests_loopOn registered _)
        · refine .closes (j.act_same _).1 ?_ nofun
          simp only [shut, act, before]
  · exact closes

theorem Sound.embarked {workers : Nat} (ended : ∀ t ∈ j.bringUp.tasks, t = .over)
    (running : j.closing = none) (embarked : Embarked j j') :
    Sound c workers attached world j' := by
  cases embarked with
  | closes tasks carrier closing =>
    refine ⟨fun _ none => absurd none closing, fun _ => tasks ▸ ended, ?_, fun _ => ?_⟩
    · rw [carrier]
      trivial
    · rw [carrier]
      trivial
  | drives some rests =>
    exact ⟨fun none => absurd none some, fun _ => ended, rests,
      fun closing => absurd running closing⟩

theorem Sound.step {workers : Nat} (ordered : Context.Ordered c.entries)
    (sound : Sound c workers attached world j) {s : JourneyStep}
    (step : j.step? c settings s = some j') : Sound c workers attached world j' := by
  cases s with
  | task i =>
    obtain ⟨b, taken, rfl⟩ := Option.map_eq_some_iff.mp step
    refine ⟨fun ashore running => ?_, fun later => ?_, sound.rests, sound.left⟩
    · exact (sound.climbs ashore running).trans (.step taken)
    · rw [step?_of_over (sound.up later)] at taken
      cases taken
  | interrupt =>
    obtain rfl := Option.some.inj step
    exact ⟨sound.climbs, sound.up, sound.rests, sound.left⟩
  | drive =>
    simp only [step?] at step
    split at step
    · rename_i ashore running stuck
      obtain rfl := Option.some.inj step
      have ended := over_of_leads ordered (sound.climbs ashore running)
        (BringUp.stuck_of_advance? stuck)
      exact .embarked ended running (embarked_embark c settings ashore)
    · cases step
  | chain s =>
    simp only [step?] at step
    split at step
    · rename_i line chain driven
      obtain ⟨chain', taken, rfl⟩ := Option.map_eq_some_iff.mp step
      obtain ⟨-, up, rests, left⟩ := sound
      rw [driven] at up rests left
      refine ⟨nofun, fun _ => up (.inl nofun), Chain.Rests.step rests taken, fun closing => ?_⟩
      obtain ⟨exit, inTime, leaving⟩ := left closing
      exact ⟨exit, inTime, Chain.left_step leaving taken⟩
    · cases step
  | loop s =>
    simp only [step?] at step
    split at step
    · rename_i feed l driven
      obtain ⟨l', taken, rfl⟩ := Option.map_eq_some_iff.mp step
      obtain ⟨-, up, rests, left⟩ := sound
      rw [driven] at up rests left
      have steps := Loop.steps_of_step? taken
      refine ⟨nofun, fun _ => up (.inl nofun), Loop.Rests.step rests steps, fun closing => ?_⟩
      obtain ⟨r, closed⟩ := left closing
      exact ⟨r, Loop.Rests.closed_step rests steps closed⟩
    · cases step
  | leave =>
    have shut (driven : j.carrier ≠ .none) (left : j.carrier.IsLeft) :
        Sound c workers attached world j.shut :=
      ⟨fun ashore => absurd ashore driven, fun _ => sound.up (.inl driven), sound.rests,
        fun _ => left⟩
    simp only [step?] at step
    split at step
    · rename_i line chain running driven
      split at step
      · rename_i exit inTime leaving
        obtain rfl := Option.some.inj step
        exact shut (by simp [driven]) (by rw [driven]; exact ⟨exit, inTime, leaving⟩)
      · cases step
    · rename_i feed l running driven
      split at step
      · rename_i r closed
        obtain rfl := Option.some.inj step
        exact shut (by simp [driven]) (by rw [driven]; exact ⟨r, closed⟩)
      · cases step
    · cases step
  | close =>
    simp only [step?] at step
    split at step
    · rename_i e rest closing
      obtain rfl := Option.some.inj step
      obtain ⟨tasks, rests, left⟩ := j.act_same fun world => (e.component.close world).world
      have begun : j.closing ≠ none := by simp [closing]
      exact ⟨nofun, fun _ => tasks ▸ sound.up (.inr begun), rests sound.rests,
        fun _ => left (sound.left begun)⟩
    · cases step

theorem sound_play (ordered : Context.Ordered c.entries) (settings : RunSettings) (attached : Bool)
    (world : σ) (schedule : List JourneyStep) :
    Sound c settings.workers attached world (play c settings attached world schedule) := by
  rw [play]
  have start := sound_begin c settings.workers attached world
  generalize begin c settings.workers attached world = j at start ⊢
  induction schedule generalizing j with
  | nil => exact start
  | cons s schedule ih =>
    refine ih (j.step c settings s) ?_
    rw [step]
    cases taken : j.step? c settings s with
    | none => exact start
    | some j' => exact start.step ordered taken

theorem Sound.idle {workers : Nat} (sound : Sound c workers attached world j)
    (closing : j.closing ≠ none) : j.carrier.timedOut = true ∨ j.inCall = false := by
  refine (sound.rests.idle (sound.left closing)).imp_right fun idle => ?_
  have still : j.bringUp.tasks.any Task.inCall = false := by
    rw [List.any_eq_false]
    intro t ht
    rw [sound.up (.inr closing) t ht]
    exact Bool.false_ne_true
  rw [inCall, still, idle, Bool.or_self]

end Journey

/-- In every state of a run of components that were built from a document, whatever the order of the
steps and whenever the run is interrupted: while components are closed, no call to bring a component
up, no pull, no work of a chain, no work of a subscriber and no tracked work goes on, unless the
worker, the last pull, a dispatcher or tracked work was not waited for to its end. -/
theorem no_call_while_closing (g : Graph) (registry : Registry σ) (settings : RunSettings)
    (session : String) (s s' : Scene σ) (c : Context σ)
    (built : instantiate g registry settings session s = (.ok c, s')) (attached : Bool) (world : σ)
    (schedule : List JourneyStep) :
    let j := Journey.play c settings attached world schedule
    j.closing ≠ none → j.carrier.timedOut = true ∨ j.inCall = false := by
  intro j closing
  have ordered := (fresh_instantiate built).ordered
  exact (Journey.sound_play ordered settings attached world schedule).idle closing

/-- A component whose pull takes a while and finds nothing. -/
def trickle : Component Nat where
  input := some fun n => { outcome := .ok .exhausted, lasts := 40, world := n + 1 }

def trickleRegistry : Registry Nat :=
  ⟨[(("input", "trickle"), fun _ n => ⟨.ok trickle, n⟩)]⟩

def trickleDocument : List Declaration :=
  [⟨"brook", "input", "trickle", [], 1⟩]

def trickleContext : Context Nat :=
  ⟨"session", [.fresh "brook" "input" "trickle" trickle ⟨"brook", [], []⟩ []], none, false⟩

theorem instantiate_trickle :
    instantiate (.offered trickleDocument) trickleRegistry .standard "session" ⟨0, []⟩ =
      (.ok trickleContext, ⟨0, [.built "brook"]⟩) := by
  obtain ⟨declarations, brook⟩ :
      (Graph.offered trickleDocument).declarations = trickleDocument ∧
        (Graph.offered trickleDocument).dependencies "brook" = [] := by
    simp [trickleDocument, Graph.offered, Graph.offer, Graph.insert, Graph.contains,
      Graph.dependencies, Graph.node?, Graph.position?, Graph.empty, Graph.positions,
      Graph.declarations, Graph.size, Declaration.references, Block.references_eq,
      Value.entryReferencesRec]
  generalize Graph.offered trickleDocument = g at declarations brook ⊢
  rw [instantiate, declarations]
  simp [trickleDocument, buildEach, optionsOf, brook, trickleRegistry, Registry.find?, busKind]
  rfl

/-- The run is interrupted in a pull and waits for it, and then closing begins. -/
def trickleSchedule : List JourneyStep :=
  .replicate 6 (.task 0) ++ [.drive, .chain .worker, .chain .interrupt, .chain .notice,
    .chain (.wait 40), .chain .worker, .chain .join, .leave]

/-- A run that was interrupted in a pull is closed when the pull has ended. -/
theorem no_call_while_closing_trickle :
    let j := Journey.play trickleContext .standard false 0 trickleSchedule
    (Journey.play trickleContext .standard false 0 (trickleSchedule.take 10)).inCall = true ∧
      j.closing.isSome = true ∧ j.inCall = false := by
  have closing : (Journey.play trickleContext .standard false 0 trickleSchedule).closing ≠ none :=
    nofun
  have inTime := no_call_while_closing (.offered trickleDocument) trickleRegistry .standard
    "session" ⟨0, []⟩ _ trickleContext instantiate_trickle false 0 trickleSchedule closing
  exact ⟨rfl, rfl, inTime.resolve_left nofun⟩

/-! ## The run that is made -/

namespace Journey

variable {c : Context σ} {settings : RunSettings} {j j' j'' : Journey σ}

/-- The world that all components act on. -/
def world (j : Journey σ) : σ :=
  match j.carrier with
  | .none => j.bringUp.world
  | .chain _ c => c.world
  | .loop _ l => l.exchange.floor.world

/-- Some schedule leads from one state to another. -/
def Leads (c : Context σ) (settings : RunSettings) (j j' : Journey σ) : Prop :=
  ∃ schedule : List JourneyStep, j' = schedule.foldl (step c settings) j

theorem Leads.refl (j : Journey σ) : Leads c settings j j := ⟨[], rfl⟩

theorem Leads.trans (first : Leads c settings j j') (second : Leads c settings j' j'') :
    Leads c settings j j'' := by
  obtain ⟨one, rfl⟩ := first
  obtain ⟨two, rfl⟩ := second
  exact ⟨one ++ two, List.foldl_append.symm⟩

theorem Leads.step {s : JourneyStep} (step : j.step? c settings s = some j') :
    Leads c settings j j' := by
  refine ⟨[s], ?_⟩
  simp [Journey.step, step]

theorem leads_tasks (j : Journey σ) {b : BringUp σ} (leads : j.bringUp.Leads b) :
    Leads c settings j { j with bringUp := b } := by
  obtain ⟨schedule, rfl⟩ := leads
  induction schedule generalizing j with
  | nil => exact .refl j
  | cons i schedule ih =>
    rw [List.foldl_cons, BringUp.turn]
    cases taken : j.bringUp.step? i with
    | none => exact ih j
    | some b =>
      have first : Leads c settings j { j with bringUp := b } :=
        .step (s := .task i) (by simp [step?, taken])
      exact first.trans (ih { j with bringUp := b })

theorem leads_chain {line : Line σ} {chain chain' : Chain σ}
    (driven : j.carrier = .chain line chain) (reached : Chain.Reaches line chain chain') :
    Leads c settings j { j with carrier := .chain line chain' } := by
  induction reached with
  | refl =>
    rw [← driven]
    exact .refl j
  | tail _ taken ih =>
    obtain ⟨s, taken⟩ := taken
    exact ih.trans (.step (s := .chain s) (by simp [step?, taken]))

theorem leads_loop {feed : Feed σ} {l l' : Loop σ} (driven : j.carrier = .loop feed l)
    (reached : Loop.Reaches feed l l') :
    Leads c settings j { j with carrier := .loop feed l' } := by
  induction reached with
  | refl =>
    rw [← driven]
    exact .refl j
  | tail _ taken ih =>
    obtain ⟨s, taken⟩ := taken
    exact ih.trans (.step (s := .loop s) (by simp [step?, taken]))

/-- All components that are to be closed can be closed, one after another. -/
theorem leads_closed (parts : List (Entry σ)) (begun : j.closing = some parts) :
    ∃ j', Leads c settings j j' ∧ j'.closing = some [] ∧
      j'.world = afterCloses parts j.world := by
  induction parts generalizing j with
  | nil => exact ⟨j, .refl j, begun, rfl⟩
  | cons e parts ih =>
    let act := j.act fun world => (e.component.close world).world
    have shared : act.world = (e.component.close j.world).world := by
      simp only [act, Journey.act, world]
      cases j.carrier <;> rfl
    obtain ⟨j', leads, ended, made⟩ := ih (j := { act with closing := some parts }) rfl
    have first : Leads c settings j { act with closing := some parts } :=
      .step (s := .close) (by simp [step?, begun, act])
    refine ⟨j', first.trans leads, ended, ?_⟩
    rw [made, afterCloses, afterCloses, List.foldl_cons, ← shared]
    rfl

end Journey

theorem Context.world_closeAll {c : Context σ} (isOpen : c.closed = false) (s : Scene σ) :
    (c.closeAll s).2.2.world = afterCloses c.entries.reverse s.world := by
  simp only [closeAll, isOpen, Bool.false_eq_true, if_false, closeEach_eq]

namespace Journey

/-- The bring-up that is made takes a run to the point where the components can be driven. -/
theorem leads_embark (c : Context σ) (settings : RunSettings) (attached interrupted : Bool)
    (world : σ) :
    Leads c settings (begin c settings.workers attached world)
      (embark c settings
        { begin c settings.workers attached world with
          interrupted
          bringUp := (BringUp.begin c.entries (max settings.workers 1) attached world).run }) := by
  obtain ⟨schedule, run, stuck⟩ :=
    Ascent.run_settles c.entries (max settings.workers 1) attached world
  rw [← run] at stuck
  rw [Ascent.now_play] at run
  have noticed : Leads c settings (begin c settings.workers attached world)
      { begin c settings.workers attached world with interrupted } := by
    cases interrupted with
    | false => exact .refl _
    | true => exact .step (s := .interrupt) rfl
  refine (noticed.trans (leads_tasks _ ⟨schedule, run⟩)).trans (.step (s := .drive) ?_)
  simp [step?, begin, BringUp.advance?_of_stuck stuck]

/-- Some schedule leads to a state in which all components are closed, and to a world; or, when the
main task is not done, to a state from which closing all components leaves that world. -/
def Ends (c : Context σ) (settings : RunSettings) (j : Journey σ) (world : σ) : Prop :=
  ∃ j', Leads c settings j j' ∧
    (j'.closing = some [] ∧ world = j'.world ∨
      ¬ j'.carrier.IsLeft ∧ world = afterCloses j'.bringUp.entries.reverse j'.world)

section Drive

variable {c up : Context σ} {settings : RunSettings} {j j' : Journey σ} {s : Scene σ}

theorem Ends.of_leads {world : σ} (leads : Leads c settings j j')
    (ends : Ends c settings j' world) : Ends c settings j world := by
  obtain ⟨j'', more, made⟩ := ends
  exact ⟨j'', leads.trans more, made⟩

theorem ends_shut (isOpen : up.closed = false) (entries : up.entries = j.bringUp.entries)
    (world : s.world = j.world) : Ends c settings j.shut (up.closeAll s).2.2.world := by
  obtain ⟨j', leads, closed, made⟩ := leads_closed (c := c) (j := j.shut) _ rfl
  refine ⟨j', leads, .inl ⟨closed, ?_⟩⟩
  rw [Context.world_closeAll isOpen, entries, world, made]
  rfl

/-- The main task leaves when it is done. -/
theorem step?_leave (running : j.closing = none) (driven : j.carrier ≠ .none)
    (left : j.carrier.IsLeft) : j.step? c settings .leave = some j.shut := by
  rw [step?, running]
  cases carrier : j.carrier with
  | none => exact absurd carrier driven
  | chain line chain =>
    rw [carrier] at left
    obtain ⟨exit, inTime, leaving⟩ := left
    simp only [leaving]
  | loop feed l =>
    rw [carrier] at left
    obtain ⟨r, closed⟩ := left
    simp only [closed]

theorem ends_driven (running : j.closing = none) (driven : j.carrier ≠ .none)
    (isOpen : up.closed = false) (entries : up.entries = j.bringUp.entries)
    (world : s.world = j.world) : Ends c settings j (up.closeAll s).2.2.world := by
  by_cases left : j.carrier.IsLeft
  · exact .of_leads (.step (step?_leave running driven left)) (ends_shut isOpen entries world)
  · refine ⟨j, .refl j, .inr ⟨left, ?_⟩⟩
    rw [Context.world_closeAll isOpen, entries, world]

variable (isOpen : up.closed = false) (entries : up.entries = j.bringUp.entries)
  (ashore : j.carrier = .none) (running : j.closing = none) (world : s.world = j.bringUp.world)

include isOpen entries ashore running world

theorem ends_runChain (exitToken : String) (grace fuel : Nat) :
    Ends c settings
      (match up.input with
        | .error _ => j.shut
        | .ok input => { j with carrier := .chain (lineOf up input exitToken grace)
                                  (.begin j.interrupted j.bringUp.world) })
      (runChain up exitToken grace j.interrupted fuel s).scene.world := by
  rw [runChain]
  cases up.input with
  | error e =>
    have shared : s.world = j.world := by rw [world, Journey.world, ashore]
    exact ends_shut isOpen entries shared
  | ok input =>
    rw [world]
    have reached := Chain.reaches_run (lineOf up input exitToken grace)
      (Chain.begin j.interrupted j.bringUp.world) fuel
    exact .of_leads (leads_chain rfl reached) (ends_driven running (by simp) isOpen entries rfl)

theorem ends_runLoop (policy : Policy) (exitToken : String) (fuel : Nat) :
    Ends c settings
      (match up.input with
        | .error _ => j.shut
        | .ok input =>
          match register up (.fresh policy j.bringUp.world) with
          | (.ok (), exchange) => { j with carrier := .loop (feedOf up input exitToken)
                                              (loopOn exchange j.interrupted) }
          | (_, exchange) => (j.act fun _ => exchange.floor.world).shut)
      (runLoop up policy exitToken j.interrupted fuel s).scene.world := by
  rw [runLoop]
  cases up.input with
  | error e =>
    have shared : s.world = j.world := by rw [world, Journey.world, ashore]
    exact ends_shut isOpen entries shared
  | ok input =>
    rw [world]
    dsimp only
    rcases registered : register up (.fresh policy j.bringUp.world) with ⟨outcome, exchange⟩
    cases outcome with
    | failed e | panicked text =>
      have acted : j.act (fun _ => exchange.floor.world) =
          { j with bringUp := { j.bringUp with world := exchange.floor.world } } := by
        rw [act, ashore]
      refine ends_shut isOpen ?_ ?_
      · rw [acted]
        exact entries
      · rw [acted, Journey.world, ashore]
    | ok =>
      have reached := Loop.reaches_run (feedOf up input exitToken)
        (loopOn exchange j.interrupted) fuel
      exact .of_leads (leads_loop rfl reached) (ends_driven running (by simp) isOpen entries rfl)

end Drive

end Journey

/-- The run of a context that is made is a journey to its end. If its steps do not suffice for the
main task to be done, it is a journey so far, and then every component is closed, the latest
first. -/
theorem Engine.journey_runContext (c : Context σ) (isOpen : c.closed = false)
    (settings : RunSettings) (room : max settings.workers 1 ≤ maxRoom) (attached interrupted : Bool)
    (fuel : Nat) (s : Scene σ) :
    ∃ schedule, let j := Journey.play c settings attached s.world schedule
      let world := (runContext c settings attached interrupted fuel s).scene.world
      j.closing = some [] ∧ world = j.world ∨
        ¬ j.carrier.IsLeft ∧ world = afterCloses j.bringUp.entries.reverse j.world := by
  have embarked := Journey.leads_embark c settings attached interrupted s.world
  suffices Journey.Ends c settings (.begin c settings.workers attached s.world)
      (runContext c settings attached interrupted fuel s).scene.world by
    obtain ⟨j, ⟨schedule, rfl⟩, made⟩ := this
    exact ⟨schedule, made⟩
  rw [runContext, Context.bringUp, reserve, if_pos room, Outcome.map]
  generalize (BringUp.begin c.entries (max settings.workers 1) attached s.world).run = b
    at embarked ⊢
  dsimp only
  generalize start : ({ Journey.begin c settings.workers attached s.world with
    interrupted, bringUp := b } : Journey σ) = j at embarked
  obtain ⟨ashore, running, rfl, rfl⟩ : j.carrier = .none ∧ j.closing = none ∧ j.bringUp = b ∧
      j.interrupted = interrupted := by
    rw [← start]
    exact ⟨rfl, rfl, rfl, rfl⟩
  have isOpen : ({ c with entries := j.bringUp.entries } : Context σ).closed = false := isOpen
  refine Journey.Ends.of_leads embarked ?_
  rw [Journey.embark]
  split
  · rw [drive]
    have world : ({ s with world := j.bringUp.world } : Scene σ).world = j.bringUp.world := rfl
    cases settings.mode with
    | sequential => exact Journey.ends_runChain isOpen rfl ashore running world _ _ _
    | bus => exact Journey.ends_runLoop isOpen rfl ashore running world _ _ _
  · refine Journey.ends_shut isOpen rfl ?_
    rw [Journey.world, ashore]

end Pipeworks
