import Pipeworks.Proofs.Bus.Backpressure
import Pipeworks.Proofs.Bus.Calls
import Pipeworks.Proofs.Bus.Enrolment
import Pipeworks.Proofs.Bus.Itinerary

/-!
# Who gets an event

An event is accepted for those on the roll that it is for. Its emission takes them in their order, and
what it was put into and what it still has to serve always make up a part of that list: only a mailbox
that has been closed is left out, and a mailbox that has been closed stays so. So an answered call has
put its event into the mailboxes of exactly these subscribers, if their mailboxes are open, and has
counted them.
-/

namespace Pipeworks

variable {σ : Type}

/-- The subscribers into whose mailboxes the event with a number was put, in that order. -/
def putInto (k : Nat) (h : List Note) : List String :=
  ((opened h).filter (·.serial = k)).map (·.recipient)

theorem putInto_append (k : Nat) (h ns : List Note) :
    putInto k (h ++ ns) = putInto k h ++ putInto k ns := by
  rw [putInto, opened_append, List.filter_append, List.map_append, putInto, putInto]

/-! ## Open mailboxes -/

namespace Bus

variable {b b' : Bus} {name other : String} {ns : List Note} {e e' : Emission}

/-- A mailbox can be found, and somebody takes deliveries out of it. -/
def IsOpen (b : Bus) (name : String) : Prop :=
  ∃ m, b.mailbox? name = some m ∧ m.listed = true ∧ m.receiving = true

theorem IsOpen.isLive (isOpen : b.IsOpen name) : b.isLive name = true := by
  obtain ⟨m, known, listed, -⟩ := isOpen
  rw [Bus.isLive, known]
  exact listed

theorem isOpen_same (boxes : b'.mailboxes = b.mailboxes) (isOpen : b'.IsOpen name) :
    b.IsOpen name := by
  rw [IsOpen, mailbox?, boxes] at isOpen
  exact isOpen

/-- A change that opens no mailbox. -/
theorem isOpen_changeMailbox {f : Mailbox → Mailbox} (isOpen : b'.IsOpen name)
    (boxes : b'.mailboxes = (b.changeMailbox other f).mailboxes)
    (opens : ∀ m, (f m).listed = true → (f m).receiving = true →
      m.listed = true ∧ m.receiving = true) : b.IsOpen name := by
  obtain ⟨m, known, listed, receiving⟩ := isOpen
  have found : b'.mailbox? name = (b.changeMailbox other f).mailbox? name := by
    rw [mailbox?, boxes, mailbox?]
  rw [found, mailbox?_changeMailbox] at known
  split at known
  · obtain ⟨m, here, rfl⟩ := Option.map_eq_some_iff.mp known
    exact ⟨m, here, opens m listed receiving⟩
  · exact ⟨m, known, listed, receiving⟩

theorem isOpen_touch {f : Mailbox → Mailbox} (isOpen : b'.IsOpen name)
    (boxes : b'.mailboxes = (b.changeMailbox other f).mailboxes)
    (keeps : ∀ m, (f m).listed = m.listed ∧ (f m).receiving = m.receiving) : b.IsOpen name := by
  refine isOpen_changeMailbox isOpen boxes fun m listed receiving => ?_
  rw [(keeps m).1] at listed
  rw [(keeps m).2] at receiving
  exact ⟨listed, receiving⟩

theorem isOpen_desert (isOpen : (b.desert other).IsOpen name) : b.IsOpen name :=
  isOpen_changeMailbox isOpen rfl fun _ _ receiving => absurd receiving Bool.false_ne_true

theorem isOpen_take? {d : Delivery} (taken : b.take? other = some (d, b')) (isOpen : b'.IsOpen name) :
    b.IsOpen name := by
  obtain ⟨-, -, -, -, rfl⟩ := take?_eq_some taken
  exact isOpen_touch isOpen rfl fun _ => ⟨rfl, rfl⟩

theorem not_isOpen_close : ¬ b.close.IsOpen name := by
  rintro ⟨m, known, listed, -⟩
  obtain ⟨before, after, split, -⟩ := List.lookup_eq_some_iff.mp known
  have here : (name, m) ∈ b.close.mailboxes := by simp [split]
  obtain ⟨x, -, same⟩ := List.mem_map.mp here
  obtain ⟨-, rfl⟩ := Prod.mk.inj same
  exact absurd listed Bool.false_ne_true

theorem isOpen_fail {now : Nat} {d : Delivery} {fault : Fault}
    (isOpen : (b.fail now other d fault).IsOpen name) : b.IsOpen name := by
  refine isOpen_same ?_ isOpen
  rw [fail]
  split <;> rfl

theorem Serves.isOpen (serves : b.Serves e ns e' b') (isOpen : b'.IsOpen name) : b.IsOpen name := by
  cases serves with
  | skipped | missed => exact isOpen
  | found =>
    exact isOpen_touch (f := fun m => { m with senders := m.senders + 1 }) isOpen rfl
      fun _ => ⟨rfl, rfl⟩
  | refused =>
    exact isOpen_touch (f := fun m => { m with senders := m.senders - 1 }) isOpen rfl
      fun _ => ⟨rfl, rfl⟩
  | put => exact isOpen_touch isOpen rfl fun _ => ⟨rfl, rfl⟩

theorem Requeues.isOpen {now : Nat} (requeues : b.Requeues now ns b') (isOpen : b'.IsOpen name) :
    b.IsOpen name := by
  cases requeues with
  | returned | full => exact isOpen
  | put r rest m hand known listed receiving room =>
    exact isOpen_touch (f := fun m => { m with
      items := m.items ++ [⟨r.serial, r.event, r.attempts + 1, some r.firstFailure⟩] }) isOpen rfl
      fun _ => ⟨rfl, rfl⟩

/-- A new mailbox opens no other. -/
theorem isOpen_subscribe (boxes : b'.mailboxes = b.mailboxes ++ [(other, Mailbox.fresh)])
    (known : name ∈ b.names) (isOpen : b'.IsOpen name) : b.IsOpen name := by
  cases found : b.mailbox? name with
  | none => exact absurd known (notMem_names found)
  | some m =>
    have same : b'.mailbox? name = b.mailbox? name := by
      rw [mailbox?, boxes, List.lookup_append, ← mailbox?, found, Option.some_or]
    rw [IsOpen, same] at isOpen
    exact isOpen

end Bus

theorem Activity.Steps.isOpen {f f' : Floor σ} {a : Activity σ} {ns : List Note}
    {stride : Stride σ} (steps : Activity.Steps f a ns stride f') {name : String}
    (isOpen : f'.bus.IsOpen name) : f.bus.IsOpen name := by
  cases steps with
  | quiet same => exact Bus.isOpen_same same.mailboxes isOpen
  | accepted ok =>
    obtain ⟨-, -, rfl⟩ := Bus.accept_ok ok
    exact isOpen
  | answered => exact isOpen
  | served step => exact step.isOpen isOpen

theorem Dispatcher.Steps.isOpen {f f' : Floor σ} {d d' : Dispatcher σ} {ns : List Note}
    (steps : d.Steps f ns d' f') {name : String} (isOpen : f'.bus.IsOpen name) :
    f.bus.IsOpen name := by
  cases steps with
  | took idle taken => exact Bus.isOpen_take? taken isOpen
  | retired => exact Bus.isOpen_desert isOpen
  | worked post step => exact step.isOpen isOpen
  | succeeded post step => exact step.isOpen (Bus.isOpen_same rfl isOpen)
  | failed post step => exact step.isOpen (Bus.isOpen_fail isOpen)
  | crashed post step => exact step.isOpen (Bus.isOpen_desert isOpen)

theorem Exchange.Steps.isOpen {s s' : Exchange σ} {ns : List Note} (steps : s.Steps ns s')
    {name : String} (isOpen : s'.bus.IsOpen name) : s.bus.IsOpen name := by
  cases steps with
  | dispatched found step => exact step.isOpen isOpen
  | worked found step => exact step.isOpen isOpen
  | finished found step => exact step.isOpen (Bus.isOpen_same rfl isOpen)
  | requeued step => exact step.isOpen isOpen
  | closed => exact absurd isOpen Bus.not_isOpen_close
  | _ => exact Bus.isOpen_same rfl isOpen

/-- A mailbox that is there is never opened. -/
theorem Audit.Steps.isOpen {s : Audit σ} {ns : List Note} {exchange : Exchange σ}
    {callers : List Emission} (steps : s.Steps ns exchange callers) {name : String}
    (known : name ∈ s.bus.names) (isOpen : exchange.bus.IsOpen name) : s.bus.IsOpen name := by
  cases steps with
  | subscribed running ok =>
    obtain ⟨bus, done, rfl⟩ := Exchange.subscribe_ok ok
    obtain ⟨-, rfl⟩ := Bus.subscribe_ok done
    exact Bus.isOpen_subscribe rfl known isOpen
  | published ok =>
    obtain ⟨-, -, rfl⟩ := Bus.accept_ok ok
    exact isOpen
  | served found step => exact step.isOpen isOpen
  | moved step => exact step.isOpen isOpen
  | idle | started | answered | touched | shut => exact isOpen

/-! ## Steps -/

/-- A publisher is answered when all recipients are served. -/
theorem Activity.Steps.isDone {f f' : Floor σ} {a : Activity σ} {ns : List Note}
    {stride : Stride σ} (steps : Activity.Steps f a ns stride f') {e : Emission}
    (told : .answered e ∈ ns) : e.isDone = true := by
  cases steps with
  | quiet => exact absurd told List.not_mem_nil
  | accepted => simp at told
  | answered done =>
    obtain rfl := Note.answered.inj (List.mem_singleton.mp told)
    exact done
  | served step => cases step <;> simp at told

theorem Exchange.Steps.isDone {s s' : Exchange σ} {ns : List Note} (steps : s.Steps ns s')
    {e : Emission} (told : .answered e ∈ ns) : e.isDone = true := by
  cases steps with
  | dispatched found step =>
    cases step with
    | worked post step => exact step.isDone told
    | failed =>
      have same := List.mem_singleton.mp told
      rw [Bus.failureNote] at same
      split at same <;> simp at same
    | took | retired | succeeded | crashed => simp at told
  | worked found step => exact step.isDone told
  | finished found step => exact step.isDone told
  | requeued step => cases step <;> simp at told
  | @aborted d =>
    have silent := d.abortNotes_isCall _ told
    simp [Note.isCall] at silent
  | truncated | expired => simp at told
  | _ => exact absurd told List.not_mem_nil

theorem Audit.Steps.isDone {s : Audit σ} {ns : List Note} {exchange : Exchange σ}
    {callers : List Emission} (steps : s.Steps ns exchange callers) {e : Emission}
    (told : .answered e ∈ ns) : e.isDone = true := by
  cases steps with
  | answered found done =>
    obtain rfl := Note.answered.inj (List.mem_singleton.mp told)
    exact done
  | served found step => cases step <;> simp at told
  | moved step => exact step.isDone told
  | published => simp at told
  | _ => exact absurd told List.not_mem_nil

/-! ## What an emission has done -/

/-- An emission was put into as many mailboxes as it counts. With those that it still has to serve they
make up a part of its recipients, in their order, and only closed mailboxes are missing. -/
structure Emission.Served (e e₀ : Emission) (b : Bus) (h : List Note) : Prop where
  counted : e.queued = (putInto e.serial h).length
  part : (putInto e.serial h ++ e.unserved).Sublist e₀.left
  whole : ∀ name ∈ e₀.left, b.IsOpen name → name ∈ putInto e.serial h ++ e.unserved

section

variable {b b' : Bus} {e e' e₀ : Emission} {h ns : List Note}

/-- A step of an emission puts it into one mailbox or leaves a closed one out, or does neither. -/
theorem Bus.Serves.routes (serves : b.Serves e ns e' b') :
    (∀ k, k ≠ e.serial → putInto k ns = []) ∧
    e'.queued = e.queued + (putInto e.serial ns).length ∧
    (putInto e.serial ns ++ e'.unserved).Sublist e.unserved ∧
    ∀ name ∈ e.unserved, b.IsOpen name → name ∈ putInto e.serial ns ++ e'.unserved := by
  cases serves with
  | skipped name left free next dead =>
    simp only [Emission.unserved, free, next, Option.toList_none, List.nil_append]
    refine ⟨fun _ _ => rfl, rfl, List.sublist_cons_self .., fun other here isOpen => ?_⟩
    rcases List.mem_cons.mp here with rfl | later
    · exact absurd (isOpen.isLive.symm.trans dead) (by simp)
    · exact later
  | found name left free next live =>
    simp only [Emission.unserved, free, next, Option.toList_none, Option.toList_some,
      List.nil_append, List.singleton_append]
    exact ⟨fun _ _ => rfl, rfl, .refl _, fun _ here _ => here⟩
  | missed name holding missing =>
    simp only [Emission.unserved, holding, Option.toList_none, Option.toList_some,
      List.nil_append, List.singleton_append]
    refine ⟨fun _ _ => rfl, rfl, List.sublist_cons_self .., fun other here isOpen => ?_⟩
    obtain ⟨m, known, -⟩ := isOpen
    rcases List.mem_cons.mp here with rfl | later
    · exact absurd (missing.symm.trans known) (by simp)
    · exact later
  | refused name m holding known deserted =>
    simp only [Emission.unserved, holding, Option.toList_none, Option.toList_some,
      List.nil_append, List.singleton_append]
    refine ⟨fun _ _ => rfl, rfl, List.sublist_cons_self .., fun other here isOpen => ?_⟩
    obtain ⟨m', known', -, receiving⟩ := isOpen
    rcases List.mem_cons.mp here with rfl | later
    · obtain rfl := Option.some.inj (known.symm.trans known')
      exact absurd (receiving.symm.trans deserted) (by simp)
    · exact later
  | put name m holding known receiving room =>
    have one : putInto e.serial [.queued name ⟨e.serial, e.event, 1, none⟩] = [name] := by
      simp [putInto, opened, Note.opened, Delivery.parcel]
    simp only [one, Emission.unserved, holding, Option.toList_none, Option.toList_some,
      List.nil_append, List.singleton_append]
    refine ⟨fun k other => ?_, rfl, .refl _, fun _ here _ => here⟩
    simp [putInto, opened, Note.opened, Delivery.parcel, Ne.symm other]

theorem Emission.Served.serves {c : Bus} (served : e.Served e₀ b h) (serves : b.Serves e ns e' b')
    (opens : ∀ name ∈ e₀.left, c.IsOpen name → b.IsOpen name) : e'.Served e₀ c (h ++ ns) := by
  obtain ⟨-, queued, part, whole⟩ := serves.routes
  obtain ⟨counted, before, all⟩ := served
  have serial := serves.same.1
  rw [← serial] at queued part whole counted before all
  refine ⟨?_, ?_, fun name here isOpen => ?_⟩
  · rw [putInto_append, List.length_append, queued, counted]
  · rw [putInto_append, List.append_assoc]
    exact (part.append_left _).trans before
  · have isOpen := opens name here isOpen
    rw [putInto_append, List.append_assoc, List.mem_append]
    rcases List.mem_append.mp (all name here isOpen) with old | new
    · exact .inl old
    · exact .inr (whole name new isOpen)

/-- An emission that is left alone. -/
theorem Emission.Served.keep (served : e.Served e₀ b h) (nothing : putInto e.serial ns = [])
    (opens : ∀ name ∈ e₀.left, b'.IsOpen name → b.IsOpen name) : e.Served e₀ b' (h ++ ns) := by
  have same : putInto e.serial (h ++ ns) = putInto e.serial h := by
    rw [putInto_append, nothing, List.append_nil]
  refine ⟨?_, ?_, fun name here isOpen => ?_⟩
  · rw [same]
    exact served.counted
  · rw [same]
    exact served.part
  · rw [same]
    exact served.whole name here (opens name here isOpen)

/-- An event that is accepted has been put nowhere. -/
theorem Emission.served_fresh (free : e₀.holding = none) (zero : e₀.queued = 0)
    (nothing : putInto e₀.serial h = []) : e₀.Served e₀ b h := by
  have all : e₀.unserved = e₀.left := by rw [Emission.unserved, free]; rfl
  refine ⟨by rw [nothing, zero]; rfl, ?_, ?_⟩ <;> rw [nothing, List.nil_append, all]
  exact fun _ here _ => here

/-- If the mailboxes of all recipients are open, an emission that is done was put into all of them. -/
theorem Emission.Served.all (served : e.Served e₀ b h) (done : e.isDone = true)
    (once : e₀.left.Nodup) (isOpen : ∀ name ∈ e₀.left, b.IsOpen name) :
    putInto e.serial h = e₀.left := by
  rw [Emission.isDone, Bool.and_eq_true, List.isEmpty_iff, Option.isNone_iff_eq_none] at done
  have none : e.unserved = [] := by rw [Emission.unserved, done.1, done.2]; rfl
  obtain ⟨-, part, whole⟩ := served
  rw [none, List.append_nil] at part whole
  refine part.eq_of_length_le ?_
  exact (List.subperm_of_subset once fun name here => whole name here (isOpen name here)).length_le

end

theorem putInto_of_silent {ns : List Note} (silent : ∀ n ∈ ns, n.isCall = false) (k : Nat) :
    putInto k ns = [] := by
  have nothing : opened ns = [] := by
    refine List.filterMap_eq_nil_iff.mpr fun n hn => ?_
    have quiet := silent n hn
    cases n <;> simp_all [Note.isCall, Note.opened]
  rw [putInto, nothing]
  rfl

namespace Audit

variable {p : Policy} {s : Audit σ} {ns : List Note} {exchange : Exchange σ}
  {callers : List Emission}

theorem Called.serial_lt (called : s.Called) {e : Emission} (he : e ∈ accepted s.history) :
    e.serial < s.bus.stats.emitted := by
  have here : e.serial ∈ (accepted s.history).map (·.serial) := List.mem_map_of_mem he
  rw [called.numbered] at here
  exact List.mem_range.mp here

/-- Whoever was answered had its event accepted. -/
theorem Called.of_answered (called : s.Called) {e : Emission} (told : .answered e ∈ s.history) :
    ∃ e₀ ∈ accepted s.history, e₀.serial = e.serial := by
  have known : e.serial ∈ answered s.history := List.mem_filterMap.mpr ⟨_, told, rfl⟩
  have some : 0 < (answered s.history).count e.serial := List.count_pos_iff.mpr known
  have once := called.once e.serial
  have more : 0 < (accepted s.history).countP (·.serial = e.serial) := by omega
  obtain ⟨e₀, he₀, same⟩ := List.countP_pos_iff.mp more
  exact ⟨e₀, he₀, of_decide_eq_true same⟩

/-- What has not been accepted has been put nowhere. -/
theorem Called.putInto_of_le (called : s.Called) {k : Nat} (later : s.bus.stats.emitted ≤ k) :
    putInto k s.history = [] := by
  rw [putInto, List.map_eq_nil_iff, List.filter_eq_nil_iff]
  intro parcel hp is
  obtain ⟨n, hn, opens⟩ := List.mem_filterMap.mp hp
  cases n with
  | queued name d =>
    obtain rfl := Option.some.inj opens
    obtain ⟨e₀, he₀, serial, -⟩ := called.entered d (List.mem_filterMap.mpr ⟨_, hn, rfl⟩)
    have := called.serial_lt he₀
    have : d.serial = k := of_decide_eq_true is
    omega
  | _ => simp [Note.opened] at opens

/-- What is known of the events that were accepted, and of what became of their emissions. -/
structure Routed (s : Audit σ) : Prop where
  known : ∀ e₀ ∈ accepted s.history, ∀ name ∈ e₀.left, name ∈ s.bus.names
  part : ∀ e₀ ∈ accepted s.history, (putInto e₀.serial s.history).Sublist e₀.left
  calls : ∀ e ∈ s.calls, ∀ e₀ ∈ accepted s.history, e₀.serial = e.serial →
    e.Served e₀ s.bus s.history
  told : ∀ e, .answered e ∈ s.history → e.isDone = true ∧
    ∀ e₀ ∈ accepted s.history, e₀.serial = e.serial → e.Served e₀ s.bus s.history

theorem routed_fresh (p : Policy) (world : σ) : (fresh p world).Routed where
  known _ he := nomatch he
  part _ he := nomatch he
  calls _ he := nomatch he
  told _ he := nomatch he

theorem Steps.names_subset (steps : s.Steps ns exchange callers) (distinct : s.bus.names.Nodup) :
    s.bus.names ⊆ exchange.bus.names := by
  cases steps with
  | subscribed running ok =>
    obtain ⟨bus, done, rfl⟩ := Exchange.subscribe_ok ok
    obtain ⟨-, rfl⟩ := Bus.subscribe_ok done
    intro name here
    change name ∈ (s.bus.mailboxes ++ _).map Prod.fst
    rw [List.map_append]
    exact List.mem_append_left _ here
  | published ok =>
    obtain ⟨-, -, rfl⟩ := Bus.accept_ok ok
    exact List.Subset.refl _
  | served found step => exact fun _ here => (step.books distinct []).names ▸ here
  | moved step => exact fun _ here => (step.books distinct).names ▸ here
  | idle | started | answered | touched | shut => exact List.Subset.refl _

/-- Where nothing is accepted, it is enough to look at the emissions under way. -/
theorem Routed.keep (routed : s.Routed) (steps : s.Steps ns exchange callers)
    (distinct : s.bus.names.Nodup) (none : accepted ns = [])
    (part : ∀ e₀ ∈ accepted s.history, (putInto e₀.serial (s.history ++ ns)).Sublist e₀.left)
    (calls : ∀ e ∈ Audit.calls ⟨exchange, callers, s.history ++ ns⟩, ∀ e₀ ∈ accepted s.history,
      e₀.serial = e.serial → e.Served e₀ exchange.bus (s.history ++ ns))
    (told : ∀ e, .answered e ∈ ns → ∀ e₀ ∈ accepted s.history,
      e₀.serial = e.serial → e.Served e₀ exchange.bus (s.history ++ ns))
    (others : ∀ e, .answered e ∈ s.history → putInto e.serial ns = []) :
    Routed ⟨exchange, callers, s.history ++ ns⟩ := by
  have grown : accepted (s.history ++ ns) = accepted s.history := by
    rw [accepted_append, none, List.append_nil]
  have opens {e₀ : Emission} (he₀ : e₀ ∈ accepted s.history) :
      ∀ name ∈ e₀.left, exchange.bus.IsOpen name → s.bus.IsOpen name :=
    fun name here => steps.isOpen (routed.known e₀ he₀ name here)
  constructor
  · rw [grown]
    exact fun e₀ he₀ name here => steps.names_subset distinct (routed.known e₀ he₀ name here)
  · rw [grown]
    exact part
  · rw [grown]
    exact calls
  · rw [grown]
    intro e he
    rcases List.mem_append.mp he with old | new
    · exact ⟨(routed.told e old).1, fun e₀ he₀ same =>
        ((routed.told e old).2 e₀ he₀ same).keep (others e old) (opens he₀)⟩
    · exact ⟨steps.isDone new, told e new⟩

theorem Called.calls_lt (called : s.Called) {e : Emission} (he : e ∈ s.calls) :
    e.serial < s.bus.stats.emitted := by
  obtain ⟨e₀, he₀, serial, -⟩ := called.known e he
  exact serial ▸ called.serial_lt he₀

/-- An event that is accepted is on its way to subscribers that have mailboxes. -/
theorem Routed.grow {event : Event} {e₀ : Emission} {bus : Bus} (routed : s.Routed)
    (called : s.Called) (steps : s.Steps [.accepted e₀] exchange callers)
    (distinct : s.bus.names.Nodup) (ok : s.bus.accept event = .ok (e₀, bus))
    (fresh : ∀ name ∈ e₀.left, name ∈ s.bus.names)
    (more : (Audit.calls ⟨exchange, callers, s.history ++ [.accepted e₀]⟩).Perm (e₀ :: s.calls)) :
    Routed ⟨exchange, callers, s.history ++ [.accepted e₀]⟩ := by
  have serial : e₀.serial = s.bus.stats.emitted := by rw [(Bus.accept_ok ok).2.1]
  have nothing (k : Nat) : putInto k [.accepted e₀] = [] := rfl
  have same (k : Nat) : putInto k (s.history ++ [.accepted e₀]) = putInto k s.history := by
    rw [putInto_append, nothing, List.append_nil]
  have nowhere : putInto e₀.serial s.history = [] := called.putInto_of_le (Nat.le_of_eq serial.symm)
  have grown {x : Emission} : x ∈ accepted (s.history ++ [.accepted e₀]) ↔
      x ∈ accepted s.history ∨ x = e₀ := by
    rw [accepted_append, List.mem_append]
    exact or_congr_right List.mem_singleton
  -- The new number is nobody else's, so only what is old concerns the old.
  have apart {e x : Emission} (below : e.serial < s.bus.stats.emitted)
      (hx : x ∈ accepted (s.history ++ [.accepted e₀])) (is : x.serial = e.serial) :
      x ∈ accepted s.history := by
    refine (grown.mp hx).resolve_right ?_
    rintro rfl
    omega
  have opens {x : Emission} (hx : x ∈ accepted s.history) :
      ∀ name ∈ x.left, exchange.bus.IsOpen name → s.bus.IsOpen name :=
    fun name here => steps.isOpen (routed.known x hx name here)
  refine ⟨fun x hx name here => ?_, fun x hx => ?_, fun e he x hx is => ?_, fun e he => ?_⟩
  · refine steps.names_subset distinct ?_
    rcases grown.mp hx with old | rfl
    · exact routed.known x old name here
    · exact fresh name here
  · rw [same]
    rcases grown.mp hx with old | rfl
    · exact routed.part x old
    · rw [nowhere]
      exact List.nil_sublist _
  · rcases List.mem_cons.mp (more.mem_iff.mp he) with rfl | old
    · have new : x = e := by
        refine (grown.mp hx).resolve_left fun old => ?_
        have := called.serial_lt old
        omega
      subst new
      obtain ⟨-, rfl, -⟩ := Bus.accept_ok ok
      exact Emission.served_fresh rfl rfl ((same _).trans nowhere)
    · have hx := apart (called.calls_lt old) hx is
      exact (routed.calls e old x hx is).keep (nothing _) (opens hx)
  · have old : .answered e ∈ s.history := (List.mem_append.mp he).resolve_right (by simp)
    refine ⟨(routed.told e old).1, fun x hx is => ?_⟩
    obtain ⟨e', he', number⟩ := called.of_answered old
    have hx := apart (number ▸ called.serial_lt he') hx is
    exact ((routed.told e old).2 x hx is).keep (nothing _) (opens hx)

/-- A number is under way once. -/
theorem Called.serial_ne (called : s.Called) {e x : Emission} {rest : List Emission}
    (one : s.calls.Perm (e :: rest)) (hx : x ∈ rest) : x.serial ≠ e.serial := by
  intro same
  have once := called.once e.serial
  have single := called.single e.serial
  have twice : 2 ≤ s.calls.countP (·.serial = e.serial) := by
    rw [one.countP_eq, List.countP_cons_of_pos (by simp)]
    have : 0 < rest.countP (·.serial = e.serial) :=
      List.countP_pos_iff.mpr ⟨x, hx, decide_eq_true same⟩
    omega
  omega

/-- One recipient is served, and the other emissions are left alone. -/
theorem Routed.serve (routed : s.Routed) (called : s.Called)
    (steps : s.Steps ns exchange callers) (distinct : s.bus.names.Nodup) {e e' : Emission}
    {rest : List Emission} {bus : Bus} (serves : s.bus.Serves e ns e' bus)
    (one : s.calls.Perm (e :: rest))
    (next : (Audit.calls ⟨exchange, callers, s.history ++ ns⟩).Perm (e' :: rest)) :
    Routed ⟨exchange, callers, s.history ++ ns⟩ := by
  obtain ⟨serial, -, none, nobody, -⟩ := serves.same
  have silent := serves.routes.1
  have here : e ∈ s.calls := one.mem_iff.mpr (List.mem_cons_self ..)
  have opens {x : Emission} (hx : x ∈ accepted s.history) :
      ∀ name ∈ x.left, exchange.bus.IsOpen name → s.bus.IsOpen name :=
    fun name known => steps.isOpen (routed.known x hx name known)
  refine routed.keep steps distinct none (fun x hx => ?_) (fun c hc x hx is => ?_)
    (fun c told => ?_) fun c told => ?_
  · by_cases own : x.serial = e.serial
    · have served := (routed.calls e here x hx own).serves serves (opens hx)
      rw [own, ← serial]
      exact (List.sublist_append_left ..).trans served.part
    · rw [putInto_append, silent _ own, List.append_nil]
      exact routed.part x hx
  · rcases List.mem_cons.mp (next.mem_iff.mp hc) with rfl | old
    · exact (routed.calls e here x hx (is.trans serial)).serves serves (opens hx)
    · have known : c ∈ s.calls := one.mem_iff.mpr (List.mem_cons_of_mem _ old)
      exact (routed.calls c known x hx is).keep (silent _ (called.serial_ne one old)) (opens hx)
  · have known : c.serial ∈ answered ns := List.mem_filterMap.mpr ⟨_, told, rfl⟩
    rw [nobody] at known
    exact absurd known List.not_mem_nil
  · refine silent _ fun same => called.unanswered here ?_
    exact List.mem_filterMap.mpr ⟨_, told, congrArg some same⟩

/-- Where nothing is put into a mailbox and nothing accepted, what was served stays so. -/
theorem Routed.rest (routed : s.Routed) (steps : s.Steps ns exchange callers)
    (distinct : s.bus.names.Nodup) (none : accepted ns = []) (nothing : ∀ k, putInto k ns = [])
    (fewer : ∀ e ∈ Audit.calls ⟨exchange, callers, s.history ++ ns⟩, e ∈ s.calls)
    (told : ∀ e, .answered e ∈ ns → e ∈ s.calls) :
    Routed ⟨exchange, callers, s.history ++ ns⟩ := by
  have opens {x : Emission} (hx : x ∈ accepted s.history) :
      ∀ name ∈ x.left, exchange.bus.IsOpen name → s.bus.IsOpen name :=
    fun name known => steps.isOpen (routed.known x hx name known)
  have still (e : Emission) (he : e ∈ s.calls) (x : Emission) (hx : x ∈ accepted s.history)
      (is : x.serial = e.serial) : e.Served x exchange.bus (s.history ++ ns) :=
    (routed.calls e he x hx is).keep (nothing _) (opens hx)
  refine routed.keep steps distinct none (fun x hx => ?_) (fun e he => still e (fewer e he))
    (fun e he => still e (told e he)) fun _ _ => nothing _
  rw [putInto_append, nothing, List.append_nil]
  exact routed.part x hx

/-- Everything that happens to a bus keeps track of who gets an event. -/
theorem Routed.step (routed : s.Routed) (called : s.Called) (sound : s.Sound p)
    {rows : List (String × List String)} (enrolled : s.Enrolled rows)
    (steps : s.Steps ns exchange callers) : Routed ⟨exchange, callers, s.history ++ ns⟩ := by
  have emits := steps.emits (s.history ++ ns)
  generalize after : Audit.calls ⟨exchange, callers, s.history ++ ns⟩ = calls at emits
  cases emits with
  | quiet silent fewer =>
    obtain ⟨none, nobody, -⟩ := accepted_of_silent silent
    refine routed.rest steps sound.distinct none (putInto_of_silent silent) ?_ ?_
    · rw [after]
      exact fewer.subset
    · intro e told
      exact absurd (silent _ told) (by simp [Note.isCall])
  | answered e one =>
    refine routed.rest steps sound.distinct rfl (fun _ => rfl) ?_ ?_
    · rw [after]
      exact fun x hx => one.mem_iff.mpr (List.mem_cons_of_mem _ hx)
    · intro x told
      obtain rfl := Note.answered.inj (List.mem_singleton.mp told)
      exact one.mem_iff.mpr (List.mem_cons_self ..)
  | served rest step one next =>
    exact routed.serve called steps sound.distinct step one (after ▸ next)
  | accepted ok more =>
    refine routed.grow called steps sound.distinct ok ?_ (after ▸ more)
    obtain ⟨-, rfl, -⟩ := Bus.accept_ok ok
    intro name here
    rw [enrolled.recipients] at here
    rw [enrolled.names]
    exact (addressees_sublist _ _).subset here

theorem routed_play (policy : Policy) (world : σ) (acts : List (Act σ)) :
    (play policy world acts).Routed := by
  induction acts using List.reverseRecOn with
  | nil => exact routed_fresh policy world
  | append_singleton acts a ih =>
    obtain ⟨ns, exchange, callers, steps, next⟩ := (play policy world acts).steps_act a
    rw [play_concat, next]
    exact ih.step (called_play policy world acts) (sound_play policy world acts)
      (enrolled_play policy world acts) steps

end Audit

end Pipeworks
