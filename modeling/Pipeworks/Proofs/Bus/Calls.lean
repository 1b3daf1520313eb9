import Mathlib.Data.List.Perm.Subperm
import Pipeworks.Proofs.Bus.Recipients

/-!
# Emissions under way

Whoever publishes an event has its emission in hand until all recipients are served: a
program that a dispatcher or tracked work runs, or a call from outside. `Emits` lists what
a step can do to all of these: take in an accepted event, answer one call, serve one
recipient, or break calls off. So an emission under way was accepted, once, and has not
been answered; and accepted events are numbered in the order in which they came.
-/

namespace Pipeworks

variable {σ : Type}

/-- The emission that a program is about. -/
def Activity.calls (a : Activity σ) : List Emission := a.emission?.toList

def Stride.calls (stride : Stride σ) : List Emission := stride.emission?.toList

def Dispatcher.calls (d : Dispatcher σ) : List Emission :=
  match d.post with
  | .handling _ a => a.calls
  | _ => []

/-- The emissions under way in an exchange. -/
def Exchange.calls (s : Exchange σ) : List Emission :=
  s.dispatchers.flatMap Dispatcher.calls ++ s.floor.tasks.flatMap Activity.calls

/-- All emissions under way. -/
def Audit.calls (s : Audit σ) : List Emission := s.exchange.calls ++ s.callers

namespace Note

/-- Whether a note is about an emission. -/
def isCall : Note → Bool
  | accepted _ | answered _ | queued _ _ => true
  | _ => false

/-- The emission of an accepted event. -/
def acceptance : Note → Option Emission
  | accepted e => some e
  | _ => none

/-- The number of an event whose publisher was answered. -/
def answer : Note → Option Nat
  | answered e => some e.serial
  | _ => none

/-- The delivery that was put into a mailbox for its first attempt. -/
def entry : Note → Option Delivery
  | queued _ d => some d
  | _ => none

end Note

/-- The accepted events, the earliest first. -/
def accepted (h : List Note) : List Emission := h.filterMap Note.acceptance

/-- The numbers of the events whose publishers were answered. -/
def answered (h : List Note) : List Nat := h.filterMap Note.answer

theorem accepted_append (h ns : List Note) : accepted (h ++ ns) = accepted h ++ accepted ns :=
  List.filterMap_append

theorem answered_append (h ns : List Note) : answered (h ++ ns) = answered h ++ answered ns :=
  List.filterMap_append

/-- What a step can do to the emissions under way. -/
inductive Bus.Emits (bus : Bus) (before : List Emission) : List Note → List Emission → Prop where
  | quiet {ns after} (silent : ∀ n ∈ ns, n.isCall = false) (fewer : after.Subperm before) :
      Emits bus before ns after
  | accepted {event e bus' after} (ok : bus.accept event = .ok (e, bus'))
      (more : after.Perm (e :: before)) : Emits bus before [.accepted e] after
  | answered {after} (e : Emission) (one : before.Perm (e :: after)) :
      Emits bus before [.answered e] after
  | served {e ns e' bus' after} (rest : List Emission) (step : bus.Serves e ns e' bus')
      (one : before.Perm (e :: rest)) (next : after.Perm (e' :: rest)) : Emits bus before ns after

namespace Bus.Emits

variable {bus : Bus} {a b c : List Emission} {ns : List Note}

theorem perm (emits : bus.Emits a ns b) (before : a.Perm c) {d : List Emission} (after : b.Perm d) :
    bus.Emits c ns d := by
  cases emits with
  | quiet silent fewer =>
    exact .quiet silent (after.symm.subperm.trans (fewer.trans before.subperm))
  | accepted ok more => exact .accepted ok (after.symm.trans (more.trans (before.cons _)))
  | answered e one => exact .answered e (before.symm.trans (one.trans (after.cons e)))
  | served rest step one next =>
    exact .served rest step (before.symm.trans one) (after.symm.trans next)

theorem beside (emits : bus.Emits a ns b) (c : List Emission) : bus.Emits (a ++ c) ns (b ++ c) := by
  cases emits with
  | quiet silent fewer => exact .quiet silent ((List.subperm_append_right c).mpr fewer)
  | accepted ok more => exact .accepted ok (more.append_right c)
  | answered e one => exact .answered e (one.append_right c)
  | served rest step one next =>
    exact .served (rest ++ c) step (one.append_right c) (next.append_right c)

theorem frame (emits : bus.Emits a ns b) (c : List Emission) : bus.Emits (c ++ a) ns (c ++ b) :=
  (emits.beside c).perm List.perm_append_comm List.perm_append_comm

theorem one {α : Type} {l : List α} {i : Nat} {x : α} {g : α → List Emission}
    (found : l[i]? = some x) (x' : α) (emits : bus.Emits (g x) ns (g x')) :
    bus.Emits (l.flatMap g) ns ((l.set i x').flatMap g) := by
  obtain ⟨before, after⟩ := flatMap_set_perm found g
  exact (emits.beside _).perm before.symm (after x').symm

theorem removed {α : Type} {l : List α} {i : Nat} {x : α} {g : α → List Emission}
    (found : l[i]? = some x) (emits : bus.Emits (g x) ns []) :
    bus.Emits (l.flatMap g) ns ((l.eraseIdx i).flatMap g) := by
  obtain ⟨before, -⟩ := flatMap_set_perm found g
  exact (emits.beside _).perm before.symm (.refl _)

end Bus.Emits

/-! ## Steps -/

theorem Activity.Steps.emits {f f' : Floor σ} {a : Activity σ} {ns : List Note}
    {stride : Stride σ} (steps : Activity.Steps f a ns stride f') :
    f.bus.Emits a.calls ns stride.calls := by
  cases steps with
  | quiet same tasks before after =>
    simp only [calls, Stride.calls, before, after]
    exact .quiet (List.forall_mem_nil _) (.refl _)
  | @accepted e next emission bus ok => exact .accepted ok (.refl _)
  | @answered e next done => exact .answered e (.refl _)
  | @served e next ns e' bus step => exact .served [] step (.refl _) (.refl _)

/-- A program that a step starts publishes nothing yet. -/
theorem Activity.Steps.calls_tasks {f f' : Floor σ} {a : Activity σ} {ns : List Note}
    {stride : Stride σ} (steps : Activity.Steps f a ns stride f') :
    f'.tasks.flatMap Activity.calls = f.tasks.flatMap Activity.calls := by
  cases steps with
  | quiet same tasks =>
    rcases tasks with tasks | ⟨w, tasks⟩
    · rw [tasks]
    · rw [tasks, List.flatMap_append]
      exact List.append_nil _
  | accepted | answered | served => rfl

theorem Bus.failureNote_isCall (b : Bus) (now : Nat) (name : String) (d : Delivery) (e : Fault) :
    (b.failureNote now name d e).isCall = false := by
  rw [failureNote]
  split <;> rfl

theorem Dispatcher.Steps.emits {f f' : Floor σ} {d d' : Dispatcher σ} {ns : List Note}
    (steps : d.Steps f ns d' f') : f.bus.Emits d.calls ns d'.calls := by
  cases steps with
  | took | retired | succeeded => exact .quiet (by simp [Note.isCall]) (List.nil_subperm)
  | worked post step =>
    simp only [calls, post]
    exact step.emits
  | failed => exact .quiet (by simp [Bus.failureNote_isCall]) (List.nil_subperm)
  | crashed =>
    refine .quiet ?_ List.nil_subperm
    simp [Note.isCall]

theorem Dispatcher.Steps.calls_tasks {f f' : Floor σ} {d d' : Dispatcher σ} {ns : List Note}
    (steps : d.Steps f ns d' f') :
    f'.tasks.flatMap Activity.calls = f.tasks.flatMap Activity.calls := by
  cases steps with
  | took | retired => rfl
  | worked _ step | succeeded _ step | failed _ step | crashed _ step => exact step.calls_tasks

theorem Dispatcher.abortNotes_isCall (d : Dispatcher σ) : ∀ n ∈ d.abortNotes, n.isCall = false := by
  rw [abortNotes]
  split <;> simp [Note.isCall]

theorem Exchange.Steps.emits {s s' : Exchange σ} {ns : List Note} (steps : s.Steps ns s') :
    s.bus.Emits s.calls ns s'.calls := by
  have still {ns : List Note} (silent : ∀ n ∈ ns, n.isCall = false) : s.bus.Emits s.calls ns s.calls :=
    .quiet silent (.refl _)
  cases steps with
  | @dispatched i d ns d' f' found step =>
    rw [calls, calls, step.calls_tasks]
    exact (Bus.Emits.one found d' step.emits).beside _
  | @worked i a ns a' f' found step =>
    have both := Bus.Emits.one (step.tasks.2 i a found) a' step.emits
    rw [step.calls_tasks] at both
    exact both.frame _
  | finished found step =>
    have both := Bus.Emits.removed (step.tasks.2 _ _ found) step.emits
    rw [step.calls_tasks] at both
    exact both.frame _
  | requeued step => cases step <;> exact still (by simp [Note.isCall])
  | expired => exact still (by simp [Note.isCall])
  | @aborted d deadline next aborted joining found =>
    refine .beside (.one found { d with post := .aborted } ?_) _
    exact .quiet d.abortNotes_isCall List.nil_subperm
  | truncated => exact still (by simp [Note.isCall])
  | drained =>
    refine .quiet (List.forall_mem_nil _) (List.Sublist.subperm ?_)
    simp [calls]
  | _ => exact still (List.forall_mem_nil _)

/-- Everything that happens to a bus treats the emissions under way in one of these ways. -/
theorem Audit.Steps.emits {s : Audit σ} {ns : List Note} {exchange : Exchange σ}
    {callers : List Emission} (steps : s.Steps ns exchange callers) (h : List Note) :
    s.bus.Emits s.calls ns (calls ⟨exchange, callers, h⟩) := by
  have still : s.bus.Emits s.calls [] s.calls := .quiet (List.forall_mem_nil _) (.refl _)
  cases steps with
  | idle | touched | shut => exact still
  | subscribed running ok =>
    obtain ⟨bus, -, rfl⟩ := Exchange.subscribe_ok ok
    exact still
  | started =>
    have same : s.exchange.start.calls = s.exchange.calls :=
      congrArg (· ++ s.exchange.floor.tasks.flatMap Activity.calls)
        (Exchange.flatMap_start fun _ _ => rfl)
    rw [calls, calls, same]
    exact still
  | @published e emission bus ok =>
    refine .accepted ok ?_
    have same : (s.exchange.onBus fun _ => bus).calls = s.exchange.calls := rfl
    rw [calls, calls, same, ← List.append_assoc]
    exact List.perm_append_singleton ..
  | @answered i e found =>
    have taken := (set_perm found).1
    refine .answered e ?_
    exact (taken.append_left s.exchange.calls).trans List.perm_middle
  | @served i e ns e' bus found step =>
    obtain ⟨before, after⟩ := set_perm found
    exact (Bus.Emits.served _ step before (after e')).frame _
  | moved step => exact step.emits.beside _

/-! ## Runs -/

/-- What is known of the emissions under way and of the events that were accepted. -/
structure Audit.Called (s : Audit σ) : Prop where
  /-- Accepted events are numbered in the order in which they came. -/
  numbered : (accepted s.history).map (·.serial) = List.range s.bus.stats.emitted
  /-- A number is under way or answered at most as often as it was given. -/
  once : ∀ k, s.calls.countP (·.serial = k) + (answered s.history).count k ≤
    (accepted s.history).countP (·.serial = k)
  /-- What is under way was accepted. -/
  known : ∀ e ∈ s.calls, ∃ e₀ ∈ accepted s.history, e₀.serial = e.serial ∧ e₀.event = e.event
  /-- What was put into a mailbox was accepted. -/
  entered : ∀ d ∈ s.history.filterMap Note.entry, ∃ e₀ ∈ accepted s.history,
    e₀.serial = d.serial ∧ e₀.event = d.event

theorem accepted_of_silent {ns : List Note} (silent : ∀ n ∈ ns, n.isCall = false) :
    accepted ns = [] ∧ answered ns = [] ∧ ns.filterMap Note.entry = [] := by
  simp only [accepted, answered, List.filterMap_eq_nil_iff]
  refine ⟨?_, ?_, ?_⟩ <;>
  · intro n hn
    have quiet := silent n hn
    cases n <;> simp_all [Note.isCall, Note.acceptance, Note.answer, Note.entry]

/-- The counter of events counts the accepted ones. -/
theorem Stats.emitted_foldl (h : List Note) (st : Stats) :
    (h.foldl Stats.note st).emitted = st.emitted + (accepted h).length := by
  induction h generalizing st with
  | nil => rfl
  | cons n h ih =>
    have one : (st.note n).emitted = st.emitted + n.acceptance.toList.length := by
      cases n <;> rfl
    rw [List.foldl_cons, ih, one, accepted, accepted, filterMap_cons_toList, List.length_append,
      Nat.add_assoc]

/-- Serving a recipient leaves an emission its event; what is put into a mailbox has it. -/
theorem Bus.Serves.same {b b' : Bus} {e e' : Emission} {ns : List Note}
    (serves : b.Serves e ns e' b') : e'.serial = e.serial ∧ e'.event = e.event ∧
      accepted ns = [] ∧ answered ns = [] ∧
      ∀ d ∈ ns.filterMap Note.entry, d.serial = e.serial ∧ d.event = e.event := by
  cases serves with
  | put => exact ⟨rfl, rfl, rfl, rfl, by simp [Note.entry]⟩
  | _ => exact ⟨rfl, rfl, rfl, rfl, List.forall_mem_nil _⟩

namespace Audit

variable {p : Policy} {s : Audit σ} {ns : List Note} {exchange : Exchange σ}
  {callers : List Emission}

theorem called_fresh (p : Policy) (world : σ) : (fresh p world).Called where
  numbered := rfl
  once _ := Nat.le_refl _
  known _ he := nomatch he
  entered _ hd := nomatch hd

/-- Where nothing is accepted, it is enough to know the emissions under way before. -/
theorem Called.keep (called : s.Called) {after : Audit σ} (history : after.history = s.history ++ ns)
    (emitted : after.bus.stats.emitted = s.bus.stats.emitted + (accepted ns).length)
    (none : accepted ns = [])
    (once : ∀ k, after.calls.countP (·.serial = k) + (answered ns).count k ≤
      s.calls.countP (·.serial = k))
    (known : ∀ e ∈ after.calls, ∃ x ∈ s.calls, x.serial = e.serial ∧ x.event = e.event)
    (entered : ∀ d ∈ ns.filterMap Note.entry,
      ∃ x ∈ s.calls, x.serial = d.serial ∧ x.event = d.event) : after.Called := by
  have grown : accepted after.history = accepted s.history := by
    rw [history, accepted_append, none, List.append_nil]
  have origin {serial : Nat} {event : Event}
      (old : ∃ x ∈ s.calls, x.serial = serial ∧ x.event = event) :
      ∃ e₀ ∈ accepted after.history, e₀.serial = serial ∧ e₀.event = event := by
    obtain ⟨x, hx, rfl, rfl⟩ := old
    rw [grown]
    exact called.known x hx
  refine ⟨?_, fun k => ?_, fun e he => origin (known e he), fun d hd => ?_⟩
  · rw [grown, emitted, none]
    exact called.numbered
  · have before := called.once k
    have fewer := once k
    rw [grown, history, answered_append, List.count_append]
    omega
  · rw [history, List.filterMap_append, List.mem_append] at hd
    rcases hd with old | new
    · rw [grown]
      exact called.entered d old
    · exact origin (entered d new)

/-- An accepted event gets the next number. -/
theorem Called.grow (called : s.Called) {after : Audit σ} {event : Event} {e : Emission} {bus' : Bus}
    (ok : s.bus.accept event = .ok (e, bus')) (history : after.history = s.history ++ [.accepted e])
    (emitted : after.bus.stats.emitted = s.bus.stats.emitted + 1)
    (more : after.calls.Perm (e :: s.calls)) : after.Called := by
  obtain ⟨-, rfl, -⟩ := Bus.accept_ok ok
  have grown {x : Emission} (old : x ∈ accepted s.history) : x ∈ accepted after.history := by
    rw [history, accepted_append]
    exact List.mem_append_left _ old
  refine ⟨?_, fun k => ?_, fun x hx => ?_, fun d hd => ?_⟩
  · rw [history, emitted, accepted_append, List.map_append, called.numbered]
    exact List.range_succ.symm
  · have before := called.once k
    rw [history, accepted_append, answered_append, more.countP_eq, List.countP_cons,
      List.countP_append, List.count_append]
    simp only [accepted, answered, Note.acceptance, Note.answer, List.filterMap_cons,
      List.filterMap_nil, List.countP_cons, List.countP_nil, List.count_nil] at before ⊢
    omega
  · rcases List.mem_cons.mp (more.mem_iff.mp hx) with rfl | old
    · rw [history, accepted_append]
      exact ⟨_, List.mem_append_right _ (List.mem_cons_self ..), rfl, rfl⟩
    · obtain ⟨e₀, he₀, same⟩ := called.known x old
      exact ⟨e₀, grown he₀, same⟩
  · rw [history, List.filterMap_append, List.mem_append] at hd
    obtain ⟨e₀, he₀, same⟩ := called.entered d (hd.resolve_right nofun)
    exact ⟨e₀, grown he₀, same⟩

theorem Called.emits (called : s.Called) {after : Audit σ}
    (emits : s.bus.Emits s.calls ns after.calls) (history : after.history = s.history ++ ns)
    (emitted : after.bus.stats.emitted = s.bus.stats.emitted + (accepted ns).length) :
    after.Called := by
  cases emits with
  | quiet silent fewer =>
    obtain ⟨none, nobody, nothing⟩ := accepted_of_silent silent
    refine called.keep history emitted none (fun k => ?_) (fun e he => ?_) ?_
    · rw [nobody, List.count_nil]
      exact fewer.countP_le fun e => decide (e.serial = k)
    · exact ⟨e, fewer.subset he, rfl, rfl⟩
    · rw [nothing]
      exact List.forall_mem_nil _
  | accepted ok more => exact called.grow ok history emitted more
  | answered e one =>
    refine called.keep history emitted rfl (fun k => ?_) (fun x hx => ?_) (List.forall_mem_nil _)
    · rw [one.countP_eq, List.countP_cons]
      simp only [answered, Note.answer, List.filterMap_cons, List.filterMap_nil, List.count_cons,
        List.count_nil, beq_iff_eq, decide_eq_true_eq]
      omega
    · exact ⟨x, one.mem_iff.mpr (List.mem_cons_of_mem _ hx), rfl, rfl⟩
  | @served e ns e' bus' after rest step one next =>
    obtain ⟨serial, event, none, nobody, own⟩ := step.same
    have here : e ∈ s.calls := one.mem_iff.mpr (List.mem_cons_self ..)
    refine called.keep history emitted none (fun k => ?_) (fun x hx => ?_) (fun d hd => ?_)
    · rw [nobody, List.count_nil, one.countP_eq, next.countP_eq, List.countP_cons,
        List.countP_cons, serial]
      exact Nat.le_refl _
    · rcases List.mem_cons.mp (next.mem_iff.mp hx) with rfl | old
      · exact ⟨e, here, serial.symm, event.symm⟩
      · exact ⟨x, one.mem_iff.mpr (List.mem_cons_of_mem _ old), rfl, rfl⟩
    · obtain ⟨sameSerial, sameEvent⟩ := own d hd
      exact ⟨e, here, sameSerial.symm, sameEvent.symm⟩

theorem Called.step (called : s.Called) (sound : s.Sound p) (steps : s.Steps ns exchange callers) :
    Called ⟨exchange, callers, s.history ++ ns⟩ := by
  refine called.emits (steps.emits _) rfl ?_
  have counted := (sound.step steps).stats
  rw [List.foldl_append, ← sound.stats] at counted
  rw [counted, Stats.emitted_foldl]

/-- After any schedule the accepted events are numbered in order, and those under way are
accepted and not answered. -/
theorem called_play (policy : Policy) (world : σ) (acts : List (Act σ)) :
    (play policy world acts).Called :=
  (play_induction (P := fun s => s.Sound policy ∧ s.Called)
    ⟨sound_fresh policy world, called_fresh policy world⟩
    (fun _ _ _ _ both steps => ⟨both.1.step steps, both.2.step both.1 steps⟩) acts).2

/-- A number is given to one event. -/
theorem Called.single (called : s.Called) (k : Nat) :
    (accepted s.history).countP (·.serial = k) ≤ 1 := by
  have count : (accepted s.history).countP (·.serial = k) =
      ((accepted s.history).map (·.serial)).count k := by
    rw [List.count, List.countP_map]
    rfl
  rw [count, called.numbered]
  exact List.nodup_iff_count.mp List.nodup_range k

/-- What is under way has not been answered. -/
theorem Called.unanswered (called : s.Called) {e : Emission} (he : e ∈ s.calls) :
    e.serial ∉ answered s.history := by
  intro told
  have here : 0 < s.calls.countP (·.serial = e.serial) :=
    List.countP_pos_iff.mpr ⟨e, he, decide_eq_true rfl⟩
  have there : 0 < (answered s.history).count e.serial := List.count_pos_iff.mpr told
  have once := called.once e.serial
  have single := called.single e.serial
  omega

end Audit

end Pipeworks
