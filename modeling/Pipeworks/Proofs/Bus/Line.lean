import Pipeworks.Proofs.Bus.Account

/-!
# First attempts in line

A mailbox is a queue: a first attempt enters at its end when an emission puts it there, and
leaves at its front when the subscriber begins to handle it; retries stand in between but
never move one. `Bus.Passes` says so of a step, for the mailbox of one subscriber, and
`Bus.InLine` is what therefore holds of a run: the first attempts begun, followed by those
that wait, are the deliveries queued, in order. A mailbox that nobody takes from any more
stays empty.
-/

namespace Pipeworks

variable {σ : Type}

/-- The delivery that a note puts into the mailbox of a subscriber for its first attempt. -/
def Note.entryFor (name : String) : Note → Option Delivery
  | queued recipient d => if recipient = name then some d else none
  | _ => none

/-- The delivery whose first attempt a subscriber begins. -/
def Note.firstTry (name : String) : Note → Option Delivery
  | begun recipient d => if recipient = name ∧ d.attempt = 1 then some d else none
  | _ => none

/-- The deliveries queued for a subscriber, the earliest first. -/
def queuedFor (name : String) (h : List Note) : List Delivery := h.filterMap (Note.entryFor name)

/-- The deliveries that a subscriber began to handle for the first time, in that order. -/
def firstTries (name : String) (h : List Note) : List Delivery := h.filterMap (Note.firstTry name)

theorem queuedFor_append (name : String) (h ns : List Note) :
    queuedFor name (h ++ ns) = queuedFor name h ++ queuedFor name ns :=
  List.filterMap_append

theorem firstTries_append (name : String) (h ns : List Note) :
    firstTries name (h ++ ns) = firstTries name h ++ firstTries name ns :=
  List.filterMap_append

/-! ## One mailbox -/

namespace Bus

/-- What waits for a subscriber, and whether somebody takes it out. -/
def intake (b : Bus) (name : String) : Option (List Delivery × Bool) :=
  (b.mailbox? name).map fun m => (m.items, m.receiving)

/-- The first attempts that wait for a subscriber. -/
def firsts (b : Bus) (name : String) : List Delivery :=
  ((b.intake name).map Prod.fst).getD [] |>.filter (·.attempt = 1)

/-- Nobody takes deliveries out of a mailbox, and none is in it. -/
def IsDeaf (b : Bus) (name : String) : Prop := b.intake name = some ([], false)

theorem mailbox?_changeMailbox (b : Bus) (other : String) (f : Mailbox → Mailbox) (name : String) :
    (b.changeMailbox other f).mailbox? name =
      if name = other then (b.mailbox? name).map f else b.mailbox? name := by
  simp only [changeMailbox, mailbox?]
  induction b.mailboxes with
  | nil => simp
  | cons m rest ih =>
    obtain ⟨k, m⟩ := m
    have key : (if k = other then (k, f m) else (k, m)) = (k, if k = other then f m else m) := by
      split <;> rfl
    rw [List.map_cons, key, List.lookup_cons, List.lookup_cons, ih]
    cases here : name == k with
    | true =>
      obtain rfl := beq_iff_eq.mp here
      by_cases own : name = other <;> simp [own]
    | false => rfl

/-- A change of one mailbox is a change of its intake. -/
theorem intake_changeMailbox {b b' : Bus} {other : String} {f : Mailbox → Mailbox}
    (boxes : b'.mailboxes = (b.changeMailbox other f).mailboxes) (name : String) :
    b'.intake name = if name = other then
      (b.mailbox? name).map fun m => ((f m).items, (f m).receiving) else b.intake name := by
  have found : b'.mailbox? name = (b.changeMailbox other f).mailbox? name := by
    rw [mailbox?, boxes, mailbox?]
  rw [intake, found, mailbox?_changeMailbox]
  split
  · rw [Option.map_map]
    rfl
  · rfl

theorem intake_touch {b b' : Bus} {other : String} {f : Mailbox → Mailbox}
    (boxes : b'.mailboxes = (b.changeMailbox other f).mailboxes)
    (keeps : ∀ m, (f m).items = m.items ∧ (f m).receiving = m.receiving) (name : String) :
    b'.intake name = b.intake name := by
  rw [intake_changeMailbox boxes]
  split
  · rw [intake]
    congr 1
    funext m
    rw [(keeps m).1, (keeps m).2]
  · rfl

theorem intake_close (b : Bus) (name : String) : b.close.intake name = b.intake name := by
  simp only [intake, close, mailbox?]
  induction b.mailboxes with
  | nil => rfl
  | cons m rest ih =>
    rw [List.map_cons, List.lookup_cons, List.lookup_cons]
    cases name == m.1 with
    | true => rfl
    | false => exact ih

/-- What a step does to the mailbox of one subscriber. -/
inductive Passes (name : String) (b : Bus) (ns : List Note) (b' : Bus) : Prop where
  /-- What waited and came is what was begun and waits. -/
  | moved (line : b.firsts name ++ queuedFor name ns = firstTries name ns ++ b'.firsts name)
      (deaf : b.IsDeaf name → b'.IsDeaf name ∧ queuedFor name ns = [] ∧ firstTries name ns = [])
  /-- Nobody takes from the mailbox any more. -/
  | deserted (deaf : b'.IsDeaf name) (nothing : queuedFor name ns = [])
      (nobody : firstTries name ns = [])

variable {b b' b'' : Bus} {name : String} {ns : List Note}

theorem Passes.of_intake (passes : Passes name b' ns b'') (same : b'.intake name = b.intake name) :
    Passes name b ns b'' := by
  cases passes with
  | moved line deaf =>
    rw [firsts, same] at line
    exact .moved line fun silent => deaf (same.trans silent)
  | deserted deaf nothing nobody => exact .deserted deaf nothing nobody

theorem passes_still (same : b'.intake name = b.intake name) (nothing : queuedFor name ns = [])
    (nobody : firstTries name ns = []) : Passes name b ns b' := by
  refine .moved ?_ fun deaf => ⟨same.trans deaf, nothing, nobody⟩
  rw [firsts, firsts, same, nothing, nobody, List.append_nil, List.nil_append]

/-- Something comes into a mailbox; it is in line if it is a first attempt. -/
theorem passes_put {other : String} {m : Mailbox} {f : Mailbox → Mailbox} {d : Delivery}
    (known : b.mailbox? other = some m) (receiving : m.receiving = true)
    (boxes : b'.mailboxes = (b.changeMailbox other f).mailboxes)
    (items : (f m).items = m.items ++ [d])
    (entered : queuedFor name ns = if other = name ∧ d.attempt = 1 then [d] else [])
    (nobody : firstTries name ns = []) : Passes name b ns b' := by
  by_cases own : other = name
  · subst own
    have before : b.intake other = some (m.items, true) := by rw [intake, known, ← receiving]; rfl
    have after : b'.intake other = some (m.items ++ [d], (f m).receiving) := by
      rw [intake_changeMailbox boxes, if_pos rfl, known, ← items]
      rfl
    refine .moved ?_ fun deaf => by simp [IsDeaf, before] at deaf
    rw [firsts, firsts, before, after, entered, nobody]
    by_cases first : d.attempt = 1 <;> simp [first]
  · rw [if_neg fun h => own h.1] at entered
    refine passes_still ?_ entered nobody
    rw [intake_changeMailbox boxes, if_neg (Ne.symm own)]

theorem Serves.passes {e e' : Emission} (serves : b.Serves e ns e' b') (name : String) :
    Passes name b ns b' := by
  cases serves with
  | skipped | missed => exact passes_still rfl rfl rfl
  | found other left free next live =>
    exact passes_still (intake_touch (f := fun m => { m with senders := m.senders + 1 }) rfl
      (fun _ => ⟨rfl, rfl⟩) name) rfl rfl
  | refused other m holding known deserted =>
    exact passes_still (intake_touch (f := fun m => { m with senders := m.senders - 1 }) rfl
      (fun _ => ⟨rfl, rfl⟩) name) rfl rfl
  | put other m holding known receiving room =>
    refine passes_put (d := ⟨e.serial, e.event, 1, none⟩) known receiving rfl rfl ?_ rfl
    by_cases own : other = name <;> simp [queuedFor, Note.entryFor, own]

theorem passes_take {other : String} {d : Delivery} (taken : b.take? other = some (d, b'))
    (name : String) : Passes name b [.begun other d] b' := by
  obtain ⟨m, rest, known, items, rfl⟩ := take?_eq_some taken
  by_cases own : other = name
  · subst own
    have before : b.intake other = some (d :: rest, m.receiving) := by
      rw [intake, known, ← items]
      rfl
    have after : (b.changeMailbox other fun m => { m with items := m.items.tail }).intake other =
        some (rest, m.receiving) := by
      rw [intake_changeMailbox rfl, if_pos rfl, known, Option.map_some, items]
      rfl
    refine .moved ?_ fun deaf => by simp [IsDeaf, before] at deaf
    rw [firsts, firsts, before, after]
    by_cases try₁ : d.attempt = 1 <;>
      simp [try₁, queuedFor, firstTries, Note.entryFor, Note.firstTry]
  · refine passes_still ?_ rfl ?_
    · rw [intake_changeMailbox rfl, if_neg (Ne.symm own)]
    · simp [firstTries, Note.firstTry, own]

theorem passes_desert (b : Bus) (other name : String) (nothing : queuedFor name ns = [])
    (nobody : firstTries name ns = []) : Passes name b ns (b.desert other) := by
  by_cases own : other = name
  · subst own
    have after : (b.desert other).intake other = _ := intake_changeMailbox (b := b) rfl other
    rw [if_pos rfl] at after
    cases known : b.mailbox? other with
    | none =>
      refine passes_still ?_ nothing nobody
      rw [after, known, intake, known]
      rfl
    | some m =>
      rw [known] at after
      exact .deserted after nothing nobody
  · refine passes_still ?_ nothing nobody
    rw [desert, intake_changeMailbox rfl, if_neg (Ne.symm own)]

theorem intake_fail (b : Bus) (now : Nat) (other : String) (d : Delivery) (e : Fault)
    (name : String) : (b.fail now other d e).intake name = b.intake name := by
  rw [fail]
  split <;> rfl

/-- A retry that comes back into a mailbox is no first attempt. -/
theorem Requeues.passes {now : Nat} (requeues : b.Requeues now ns b')
    (tried : ∀ r ∈ b.requeuing, 1 ≤ r.attempts) (name : String) : Passes name b ns b' := by
  cases requeues with
  | returned | full => exact passes_still rfl rfl rfl
  | put r rest m hand known listed receiving room =>
    refine passes_put (f := fun m => { m with
      items := m.items ++ [⟨r.serial, r.event, r.attempts + 1, some r.firstFailure⟩] }) known
      receiving rfl rfl ?_ rfl
    have again : r.attempts + 1 ≠ 1 := by
      have := tried r (hand ▸ List.mem_cons_self ..)
      omega
    rw [if_neg fun h => again h.2]
    rfl

/-- A new mailbox is empty, and changes no other. -/
theorem passes_subscribe {other : String}
    (boxes : b'.mailboxes = b.mailboxes ++ [(other, Mailbox.fresh)]) : Passes name b [] b' := by
  have found : b'.mailbox? name =
      (b.mailbox? name).or ([(other, Mailbox.fresh)].lookup name) := by
    rw [mailbox?, boxes, List.lookup_append, mailbox?]
  cases known : b.mailbox? name with
  | some m =>
    refine passes_still ?_ rfl rfl
    rw [intake, found, known, intake, known]
    rfl
  | none =>
    have before : b.intake name = none := by rw [intake, known]; rfl
    have after : b'.firsts name = [] := by
      rw [firsts, intake, found, known, List.lookup_cons]
      cases name == other <;> rfl
    refine .moved ?_ fun deaf => by simp [IsDeaf, before] at deaf
    rw [firsts, before, after]
    rfl

end Bus

/-! ## Steps -/

theorem Activity.Steps.passes {f f' : Floor σ} {a : Activity σ} {ns : List Note}
    {stride : Stride σ} (steps : Activity.Steps f a ns stride f') (name : String) :
    Bus.Passes name f.bus ns f'.bus := by
  cases steps with
  | quiet same => exact Bus.passes_still (by rw [Bus.intake, Bus.mailbox?, same.mailboxes]; rfl) rfl rfl
  | accepted ok =>
    obtain ⟨-, -, rfl⟩ := Bus.accept_ok ok
    exact Bus.passes_still rfl rfl rfl
  | answered => exact Bus.passes_still rfl rfl rfl
  | served step => exact step.passes name

theorem Dispatcher.Steps.passes {f f' : Floor σ} {d d' : Dispatcher σ} {ns : List Note}
    (steps : d.Steps f ns d' f') (name : String) : Bus.Passes name f.bus ns f'.bus := by
  have ended {a : Activity σ} {ns : List Note} {o : Outcome Unit} {f' : Floor σ}
      (step : Activity.Steps f a ns (.ended o) f') : f'.bus.intake name = f.bus.intake name := by
    rw [Bus.intake, Bus.mailbox?, step.ended.mailboxes]
    rfl
  cases steps with
  | took idle taken => exact Bus.passes_take taken name
  | retired idle empty => exact Bus.passes_desert f.bus d.name name rfl rfl
  | worked post step => exact step.passes name
  | succeeded post step =>
    have same := ended step
    exact Bus.passes_still same rfl rfl
  | @failed x a ns e f' post step =>
    refine Bus.passes_still ((Bus.intake_fail ..).trans (ended step)) ?_ ?_ <;>
    · rw [Bus.failureNote]
      split <;> rfl
  | @crashed x a ns text f' post step =>
    refine (Bus.passes_desert f'.bus d.name name ?_ ?_).of_intake (ended step)
    · simp [queuedFor, Note.entryFor]
    · simp [firstTries, Note.firstTry]

theorem Exchange.Steps.passes {s s' : Exchange σ} {ns : List Note} (steps : s.Steps ns s')
    (tried : ∀ r ∈ s.bus.requeuing, 1 ≤ r.attempts) (name : String) :
    Bus.Passes name s.bus ns s'.bus := by
  have still {bus : Bus} (same : bus.mailboxes = s.bus.mailboxes) :
      bus.intake name = s.bus.intake name := by
    rw [Bus.intake, Bus.mailbox?, same]
    rfl
  cases steps with
  | dispatched found step => exact step.passes name
  | worked found step => exact step.passes name
  | @finished i a ns o f' found step =>
    refine Bus.passes_still (still step.ended.mailboxes) ?_ ?_ <;>
    · cases step
      rfl
  | requeued step => exact step.passes tried name
  | closed => exact Bus.passes_still (Bus.intake_close _ name) rfl rfl
  | aborted =>
    refine Bus.passes_still rfl ?_ ?_ <;>
    · rw [Dispatcher.abortNotes]
      split <;> rfl
  | truncated =>
    exact Bus.passes_still rfl (filterMap_discarded (fun _ => rfl) _)
      (filterMap_discarded (fun _ => rfl) _)
  | _ => exact Bus.passes_still rfl rfl rfl

theorem Audit.Steps.passes {s : Audit σ} {ns : List Note} {exchange : Exchange σ}
    {callers : List Emission} (steps : s.Steps ns exchange callers)
    (tried : ∀ r ∈ s.bus.requeuing, 1 ≤ r.attempts) (name : String) :
    Bus.Passes name s.bus ns exchange.bus := by
  cases steps with
  | subscribed running ok =>
    obtain ⟨bus, done, rfl⟩ := Exchange.subscribe_ok ok
    obtain ⟨dead, rfl⟩ := Bus.subscribe_ok done
    exact Bus.passes_subscribe rfl
  | published ok =>
    obtain ⟨-, -, rfl⟩ := Bus.accept_ok ok
    exact Bus.passes_still rfl rfl rfl
  | served found step => exact step.passes name
  | moved step => exact step.passes tried name
  | _ => exact Bus.passes_still rfl rfl rfl

/-- The order of the first attempts at a subscriber after a history. -/
inductive Bus.InLine (b : Bus) (name : String) (h : List Note) : Prop where
  | waiting (all : queuedFor name h = firstTries name h ++ b.firsts name)
  | deaf (begun : firstTries name h <+: queuedFor name h) (deaf : b.IsDeaf name)

theorem Bus.InLine.begun {b : Bus} {name : String} {h : List Note} (line : b.InLine name h) :
    firstTries name h <+: queuedFor name h := by
  cases line with
  | waiting all => exact ⟨b.firsts name, all.symm⟩
  | deaf begun => exact begun

theorem Bus.InLine.passes {b b' : Bus} {name : String} {h ns : List Note} (line : b.InLine name h)
    (passes : Bus.Passes name b ns b') : b'.InLine name (h ++ ns) := by
  have quiet (nothing : queuedFor name ns = []) (nobody : firstTries name ns = []) :
      firstTries name (h ++ ns) <+: queuedFor name (h ++ ns) := by
    rw [firstTries_append, queuedFor_append, nothing, nobody, List.append_nil, List.append_nil]
    exact line.begun
  cases passes with
  | deserted deaf nothing nobody => exact .deaf (quiet nothing nobody) deaf
  | moved line' stays =>
    cases line with
    | deaf begun deaf =>
      obtain ⟨after, nothing, nobody⟩ := stays deaf
      exact .deaf (quiet nothing nobody) after
    | waiting all =>
      refine .waiting ?_
      calc queuedFor name (h ++ ns)
          = firstTries name h ++ (b.firsts name ++ queuedFor name ns) := by
            rw [queuedFor_append, all, List.append_assoc]
        _ = firstTries name (h ++ ns) ++ b'.firsts name := by
            rw [line', firstTries_append, List.append_assoc]

/-! ## Runs -/

/-- The number of the attempt that a spot says, or of those made before it. -/
def Spot.number : Spot → Nat
  | waiting n | handled n | pending n => n

/-- Attempts are numbered from 1, so whatever is pending was tried. -/
theorem Posts.numbered {p : Policy} {a b : List (Parcel × Spot)} {ns : List Note}
    (posts : Posts p a ns b) (before : ∀ e ∈ a, 1 ≤ e.2.number) : ∀ e ∈ b, 1 ≤ e.2.number := by
  induction posts with
  | none same => exact fun e he => before e (same.mem_iff.mpr he)
  | @note a b rest n ns lawful leaves _ ih =>
    have others : ∀ e ∈ n.departure.toList ++ rest, 1 ≤ e.2.number :=
      fun e he => before e (leaves.mem_iff.mpr he)
    refine ih (List.forall_mem_append.mpr ⟨?_, (List.forall_mem_append.mp others).2⟩)
    have left := (List.forall_mem_append.mp others).1
    cases n <;> simp_all [Note.arrival, Note.departure, Note.Lawful, Spot.number]

namespace Audit

theorem Sound.tried {p : Policy} {s : Audit σ}
    (sound : s.Sound p) : ∀ r ∈ s.bus.requeuing, 1 ≤ r.attempts := by
  intro r hr
  have found : r.copy ∈ s.exchange.placed := by
    refine List.mem_append_right _ (List.mem_append_right _ (List.mem_append_left _ ?_))
    exact List.mem_append_right _ (List.mem_map_of_mem hr)
  exact sound.posts.numbered nofun _ found

theorem inLine_play (policy : Policy) (world : σ) (acts : List (Act σ)) (name : String) :
    (play policy world acts).bus.InLine name (play policy world acts).history :=
  (play_induction (P := fun s => s.Sound policy ∧ s.bus.InLine name s.history)
    ⟨sound_fresh policy world, .waiting rfl⟩
    (fun _ _ _ _ both steps =>
      ⟨both.1.step steps, both.2.passes (steps.passes both.1.tried name)⟩) acts).2

end Audit

end Pipeworks
