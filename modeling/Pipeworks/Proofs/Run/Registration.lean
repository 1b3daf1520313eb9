import Pipeworks.Proofs.Run.Records
import Pipeworks.Proofs.Bus.Staff

/-!
# What registration leaves behind

Registering a context gives every component that has a part on the bus its mailbox, its topics and
its work, and changes nothing else. A run over the bus begins with that; as a bus with a caller
from outside it is one of the buses that are audited, so whatever every step of such a bus keeps
holds of it throughout. Its topics and its dispatchers' work are those of the registration for
good.
-/

namespace Pipeworks

variable {σ : Type}

/-! ## Roles -/

/-- The part of a component on the bus: the topics it is subscribed to, and its work. -/
structure Role (σ : Type) where
  name : String
  topics : List String
  deliver : Event → Work σ

/-- The role of a component in a context, if it has one. -/
def Context.role? (c : Context σ) (e : Entry σ) : Option (Role σ) :=
  match subscription c e with
  | .ok (some (topics, deliver)) => some ⟨e.name, topics, deliver⟩
  | _ => none

/-- The roles of all components, in document order. -/
def Context.roles (c : Context σ) : List (Role σ) := c.entries.filterMap c.role?

namespace Exchange

/-- Give a role its mailbox and its topics. -/
def enlist (s : Exchange σ) (role : Role σ) : Exchange σ :=
  { s.onBus (fun b => { b with
      mailboxes := b.mailboxes ++ [(role.name, Mailbox.fresh)]
      topics := role.topics.foldl (fun table topic => Bus.addToTopic role.name topic table)
        b.topics }) with
    unstarted := s.unstarted ++ [(role.name, role.deliver)] }

theorem enlist_of_subscribe {s s' : Exchange σ} {r : Role σ}
    (ok : s.subscribe r.name r.topics r.deliver = .ok s') : s' = s.enlist r := by
  obtain ⟨bus, subscribed, rfl⟩ := subscribe_ok ok
  obtain ⟨-, rfl⟩ := Bus.subscribe_ok subscribed
  rfl

/-- What roles leave as it is, and what they add. -/
structure Enlisted (s : Exchange σ) (roles : List (Role σ)) (s' : Exchange σ) : Prop where
  world : s'.floor.world = s.floor.world
  interrupted : s'.floor.interrupted = s.floor.interrupted
  tasks : s'.floor.tasks = s.floor.tasks
  closing : s'.closing = s.closing
  closed : s'.bus.closed = s.bus.closed
  streams : s'.bus.streams = s.bus.streams
  policy : s'.bus.policy = s.bus.policy
  dispatchers : s'.dispatchers = s.dispatchers
  unstarted : s'.unstarted = s.unstarted ++ roles.map fun r => (r.name, r.deliver)
  names : s'.bus.names = s.bus.names ++ roles.map (·.name)

theorem enlisted_foldl (s : Exchange σ) (roles : List (Role σ)) :
    s.Enlisted roles (roles.foldl enlist s) := by
  induction roles generalizing s with
  | nil => constructor <;> simp
  | cons role roles ih =>
    have rest := ih (s.enlist role)
    constructor
    · exact rest.world
    · exact rest.interrupted
    · exact rest.tasks
    · exact rest.closing
    · exact rest.closed
    · exact rest.streams
    · exact rest.policy
    · exact rest.dispatchers
    · rw [List.foldl_cons, rest.unstarted]
      simp [enlist]
    · rw [List.foldl_cons, rest.names]
      simp [enlist, bus, onBus, Bus.names]

end Exchange

/-- Registration that succeeds enlists the roles of the components, one after another. -/
theorem registerEach_ok {c : Context σ} {entries : List (Entry σ)} {s s' : Exchange σ}
    (ok : registerEach c s entries = (.ok (), s')) :
    s' = (entries.filterMap c.role?).foldl Exchange.enlist s := by
  induction entries generalizing s with
  | nil => exact (Prod.mk.inj ok).2.symm
  | cons e entries ih =>
    rw [registerEach] at ok
    cases asked : subscription c e with
    | error fault => simp [asked] at ok
    | ok answer =>
      cases answer with
      | none =>
        have role : c.role? e = none := by rw [Context.role?, asked]
        rw [List.filterMap_cons_none role]
        simp only [asked] at ok
        exact ih ok
      | some part =>
        obtain ⟨topics, deliver⟩ := part
        have role : c.role? e = some ⟨e.name, topics, deliver⟩ := by rw [Context.role?, asked]
        rw [List.filterMap_cons_some role, List.foldl_cons]
        simp only [asked] at ok
        split at ok
        · rename_i after done
          obtain rfl := Exchange.enlist_of_subscribe (r := ⟨e.name, topics, deliver⟩) done
          exact ih ok
        · simp at ok
        · simp at ok

theorem enlisted_register {c : Context σ} {s s' : Exchange σ}
    (ok : register c s = (.ok (), s')) : s.Enlisted c.roles s' := by
  rw [registerEach_ok ok]
  exact s.enlisted_foldl c.roles

/-! ## Topics -/

/-- A topic has the subscribers that have a role with it, beside those it had. -/
theorem Exchange.mem_subscribersOf_foldl {s : Exchange σ} {roles : List (Role σ)}
    {name topic : String} :
    name ∈ (roles.foldl enlist s).bus.subscribersOf topic ↔
      name ∈ s.bus.subscribersOf topic ∨ ∃ r ∈ roles, name = r.name ∧ topic ∈ r.topics := by
  induction roles generalizing s with
  | nil => simp
  | cons role roles ih =>
    have one : name ∈ (s.enlist role).bus.subscribersOf topic ↔
        name ∈ s.bus.subscribersOf topic ∨ name = role.name ∧ topic ∈ role.topics :=
      Bus.mem_addToTopics
    rw [List.foldl_cons, ih, one, or_assoc]
    simp

/-- After registration on a fresh bus a topic has the components whose roles name it. -/
theorem mem_subscribersOf_register {c : Context σ} {policy : Policy} {world : σ}
    {exchange : Exchange σ} (ok : register c (.fresh policy world) = (.ok (), exchange))
    {name topic : String} :
    name ∈ exchange.bus.subscribersOf topic ↔ ∃ r ∈ c.roles, name = r.name ∧ topic ∈ r.topics := by
  obtain rfl := registerEach_ok ok
  rw [Exchange.mem_subscribersOf_foldl]
  constructor
  · rintro (nobody | here)
    · cases nobody
    · exact here
  · exact .inr

/-! ## Audits of runs -/

/-- Whatever is kept by every step of an audited bus. -/
def Audit.Kept (P : Audit σ → Prop) : Prop :=
  ∀ s ns exchange callers, P s → s.Steps ns exchange callers →
    P ⟨exchange, callers, s.history ++ ns⟩

namespace Exchange

/-- Whether the bus runs and takes events. -/
def IsOpen (s : Exchange σ) : Prop := s.closing = .running ∧ s.bus.closed = false

/-- Nothing closes a bus but its shutdown. -/
theorem IsOpen.step {s s' : Exchange σ} {ns : List Note} (isOpen : s.IsOpen)
    (steps : s.Steps ns s') : s'.IsOpen := by
  obtain ⟨running, accepts⟩ := isOpen
  cases steps with
  | dispatched found step => exact ⟨running, step.hands.2.2.2.trans accepts⟩
  | worked found step | finished found step => exact ⟨running, step.aside.closed.trans accepts⟩
  | requeued step => exact ⟨running, by cases step <;> exact accepts⟩
  | closed deadline settling => simp [running] at settling
  | joined deadline next aborted joining | aborted deadline next aborted joining
  | truncated deadline next aborted joining => simp [running] at joining
  | drained deadline aborted retries truncated draining => simp [running] at draining
  | _ => exact ⟨running, accepts⟩

/-- The subscribers that were started, each with its work. -/
def crew (s : Exchange σ) : List (String × (Event → Work σ)) :=
  s.dispatchers.map fun d => (d.name, d.deliver)

theorem Steps.crew {s s' : Exchange σ} {ns : List Note} (steps : s.Steps ns s') :
    s'.crew = s.crew := by
  cases steps with
  | dispatched found step => exact map_set_of_eq found (Prod.ext step.name step.deliver)
  | aborted deadline next aborted joining found => exact map_set_of_eq found rfl
  | _ => rfl

end Exchange

/-- A registration leaves an open bus open. -/
theorem isOpen_register {c : Context σ} {s s' : Exchange σ} (isOpen : s.IsOpen)
    (ok : register c s = (.ok (), s')) : s'.IsOpen :=
  ⟨(enlisted_register ok).closing.trans isOpen.1, (enlisted_register ok).closed.trans isOpen.2⟩

/-- A main loop that has not been left has an open bus. -/
def Loop.IsOpen (l : Loop σ) : Prop :=
  match l.place with
  | .stopping .. => True
  | _ => l.exchange.IsOpen

namespace Loop

variable {feed : Feed σ} {l l' : Loop σ} {os : List (Outcome Pulled)} {es : List Emission}
  {ns : List Note}

theorem IsOpen.of_place {place : LoopPlace} (isOpen : l.IsOpen) (here : l.place = place)
    (going : ∀ exit inTime, place ≠ .stopping exit inTime) : l.exchange.IsOpen := by
  rw [IsOpen, here] at isOpen
  cases place with
  | stopping exit inTime => exact absurd rfl (going exit inTime)
  | ready | pulling | publishing | settling => exact isOpen

theorem IsOpen.step (isOpen : l.IsOpen) (steps : Steps feed l os es ns l') : l'.IsOpen := by
  cases steps with
  | noticed pulling => exact isOpen.of_place pulling (by simp)
  | missing ready none =>
    have here := isOpen.of_place ready (by simp)
    rw [pull, none]
    exact here
  | pulled ready some =>
    have here := isOpen.of_place ready (by simp)
    rw [pull, some]
    exact here
  | stopped | left => trivial
  | refused pulling => exact isOpen.of_place pulling (by simp)
  | published pulling goes ok =>
    obtain ⟨accepts, -, rfl⟩ := Bus.accept_ok ok
    exact ⟨(isOpen.of_place pulling (by simp)).1, accepts⟩
  | answered publishing => exact isOpen.of_place publishing (by simp)
  | served publishing step =>
    have here := isOpen.of_place publishing (by simp)
    exact ⟨here.1, step.aside.closed.trans here.2⟩
  | moved step =>
    rw [IsOpen] at isOpen ⊢
    cases place : l.place with
    | stopping exit inTime => trivial
    | ready | pulling | publishing | settling =>
      rw [place] at isOpen
      exact Exchange.IsOpen.step isOpen (Exchange.steps_of_step? step)

/-- What every step of an audited bus keeps, every step of a run over the bus keeps. -/
theorem Steps.keeps {P : Audit σ → Prop} (kept : Audit.Kept P) (steps : Steps feed l os es ns l')
    (isOpen : l.IsOpen) {h : List Note} (holds : P ⟨l.exchange, l.callers, h⟩) :
    P ⟨l'.exchange, l'.callers, h ++ ns⟩ := by
  have running {place : LoopPlace} (here : l.place = place)
      (going : ∀ exit inTime, place ≠ .stopping exit inTime) : l.exchange.isRunning :=
    Exchange.isRunning_iff.mpr (isOpen.of_place here going).1
  have idle {place : LoopPlace} (here : l.place = place) (other : ∀ e, place ≠ .publishing e) :
      l.callers = [] := by
    rw [Loop.callers, here]
    cases place with
    | publishing e => exact absurd rfl (other e)
    | ready | pulling | settling | stopping => rfl
  cases steps with
  | noticed pulling =>
    rw [idle pulling (by simp)] at holds
    rw [List.append_nil]
    exact holds
  | missing ready none =>
    rw [idle ready (by simp)] at holds
    rw [pull, none, List.append_nil]
    exact holds
  | @pulled call ready some =>
    rw [idle ready (by simp)] at holds
    rw [pull, some, List.append_nil]
    have touched := kept _ _ _ _ holds (.touched (call l.exchange.floor.world).world)
    rw [List.append_nil] at touched
    cases interrupts : (call l.exchange.floor.world).interrupts with
    | false =>
      simp only [interrupts, Bool.or_false]
      exact touched
    | true =>
      have interrupted := kept _ _ _ _ touched (.moved .interrupted)
      rw [List.append_nil] at interrupted
      simp only [interrupts, Bool.or_true]
      exact interrupted
  | stopped pulling =>
    rw [idle pulling (by simp)] at holds
    exact kept _ _ _ _ holds (.shut (running pulling (by simp)))
  | refused pulling =>
    rw [idle pulling (by simp)] at holds
    rw [List.append_nil]
    exact holds
  | published pulling goes ok =>
    rw [idle pulling (by simp)] at holds
    exact kept _ _ _ _ holds (.published ok)
  | answered publishing done =>
    rw [Loop.callers, publishing] at holds
    exact kept _ _ _ _ holds (.answered (i := 0) rfl done)
  | served publishing step =>
    rw [Loop.callers, publishing] at holds
    exact kept _ _ _ _ holds (.served (i := 0) rfl step)
  | left settling =>
    rw [idle settling (by simp)] at holds
    exact kept _ _ _ _ holds (.shut (running settling (by simp)))
  | moved step => exact kept _ _ _ _ holds (.moved (Exchange.steps_of_step? step))

end Loop

/-- What holds of a bus without subscribers and is kept by every step of an audited bus holds after
registration. -/
theorem keeps_registerEach {P : Audit σ → Prop} (kept : Audit.Kept P) {c : Context σ}
    {entries : List (Entry σ)} {s s' : Exchange σ} (running : s.isRunning)
    (ok : registerEach c s entries = (.ok (), s')) (holds : P ⟨s, [], []⟩) : P ⟨s', [], []⟩ := by
  induction entries generalizing s with
  | nil =>
    obtain rfl := (Prod.mk.inj ok).2
    exact holds
  | cons e entries ih =>
    rw [registerEach] at ok
    split at ok
    · simp at ok
    · exact ih running ok holds
    · split at ok
      · rename_i after done
        have next : after.isRunning := by
          obtain ⟨bus, -, rfl⟩ := Exchange.subscribe_ok done
          exact running
        exact ih next ok (kept _ _ _ _ holds (.subscribed running done))
      · simp at ok
      · simp at ok

namespace LoopRecord

variable {c : Context σ} {policy : Policy} {world : σ} {exchange : Exchange σ}

theorem loopOn_register (ok : register c (.fresh policy world) = (.ok (), exchange)) :
    loopOn exchange false = Loop.begin exchange.start := by
  have same : { exchange.floor with interrupted := false } = exchange.floor := by
    have before : exchange.floor.interrupted = false := (enlisted_register ok).interrupted
    rw [← before]
  rw [loopOn, same]

/-- A run over the bus that was not interrupted before it began is that of an audited bus. -/
theorem audit_induction {P : Audit σ → Prop} (start : P (.fresh policy world))
    (kept : Audit.Kept P) (ok : register c (.fresh policy world) = (.ok (), exchange))
    (feed : Feed σ) (schedule : List LoopStep) : P (play feed exchange false schedule).audit := by
  have running : (Exchange.fresh policy world).isRunning := rfl
  have isOpen : exchange.IsOpen := isOpen_register ⟨rfl, rfl⟩ ok
  refine (play_induction (P := fun r => r.loop.IsOpen ∧ P r.audit) ?_ ?_ schedule).2
  · rw [loopOn_register ok]
    refine ⟨isOpen, ?_⟩
    have registered := keeps_registerEach kept running ok start
    exact kept _ _ _ _ registered (.started (Exchange.isRunning_iff.mpr isOpen.1))
  · intro r os es ns loop before steps
    exact ⟨before.1.step steps, steps.keeps kept before.1 before.2⟩

/-- The bus of a run is open as long as the main loop has not been left. -/
theorem isOpen_play (ok : register c (.fresh policy world) = (.ok (), exchange)) (feed : Feed σ)
    (schedule : List LoopStep) : (play feed exchange false schedule).loop.IsOpen := by
  have isOpen : exchange.IsOpen := isOpen_register ⟨rfl, rfl⟩ ok
  have begun : (loopOn exchange false).IsOpen := isOpen
  exact play_induction (P := fun r => r.loop.IsOpen) begun
    (fun _ _ _ _ _ before steps => before.step steps) schedule

theorem sound_play (ok : register c (.fresh policy world) = (.ok (), exchange)) (feed : Feed σ)
    (schedule : List LoopStep) : (play feed exchange false schedule).audit.Sound policy :=
  audit_induction (Audit.sound_fresh policy world) (fun _ _ _ _ sound steps => sound.step steps) ok
    feed schedule

theorem fair_play (ok : register c (.fresh policy world) = (.ok (), exchange)) (feed : Feed σ)
    (schedule : List LoopStep) : (play feed exchange false schedule).audit.Fair := by
  have kept : Audit.Kept (σ := σ) fun s => s.Sound policy ∧ s.Fair :=
    fun _ _ _ _ both steps => ⟨both.1.step steps, both.2.step both.1 steps⟩
  have start := And.intro (Audit.sound_fresh policy world) (Audit.fair_fresh policy world)
  exact (audit_induction start kept ok feed schedule).2

/-- The dispatchers of a run are those of the roles, in their order. -/
theorem crew_play (ok : register c (.fresh policy world) = (.ok (), exchange)) (feed : Feed σ)
    (schedule : List LoopStep) :
    (play feed exchange false schedule).loop.exchange.crew =
      c.roles.map fun r => (r.name, r.deliver) := by
  have enlisted := enlisted_register ok
  refine play_induction (P := fun r => r.loop.exchange.crew =
    c.roles.map fun r => (r.name, r.deliver)) ?_ ?_ schedule
  · rw [loopOn_register ok, Loop.begin, Exchange.crew, Exchange.start, enlisted.dispatchers,
      enlisted.unstarted]
    simp [Exchange.fresh, Function.comp_def]
  · intro r os es ns loop before steps
    cases steps with
    | missing ready none | pulled ready some =>
      rw [Loop.pull]
      split <;> exact before
    | moved step => exact (Exchange.steps_of_step? step).crew.trans before
    | _ => exact before

/-- The topics of a run are those of the registration. -/
theorem topics_play (ok : register c (.fresh policy world) = (.ok (), exchange)) (feed : Feed σ)
    (schedule : List LoopStep) :
    (play feed exchange false schedule).loop.exchange.bus.topics = exchange.bus.topics := by
  have sound : Audit.Kept (σ := σ) (fun s => s.Sound policy) :=
    fun _ _ _ _ before steps => before.step steps
  have isOpen : exchange.IsOpen := isOpen_register ⟨rfl, rfl⟩ ok
  refine (play_induction (P := fun r => (r.loop.IsOpen ∧ r.audit.Sound policy) ∧
    r.loop.exchange.bus.topics = exchange.bus.topics) ?_ ?_ schedule).2
  · have first := sound_play ok feed []
    rw [loopOn_register ok]
    refine ⟨⟨isOpen, ?_⟩, rfl⟩
    rw [play, List.foldl_nil, loopOn_register ok] at first
    exact first
  · rintro r os es ns loop ⟨⟨isOpen, before⟩, topics⟩ steps
    refine ⟨⟨isOpen.step steps, steps.keeps sound isOpen before⟩, ?_⟩
    cases steps with
    | missing ready none | pulled ready some =>
      rw [Loop.pull]
      split <;> exact topics
    | published pulling goes accepted =>
      obtain ⟨-, -, rfl⟩ := Bus.accept_ok accepted
      exact topics
    | served publishing step => exact (step.books before.distinct []).topics.trans topics
    | moved step => exact ((Exchange.steps_of_step? step).books before.distinct).topics.trans topics
    | _ => exact topics

end LoopRecord

end Pipeworks
