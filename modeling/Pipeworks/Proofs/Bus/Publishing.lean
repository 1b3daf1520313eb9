import Pipeworks.Proofs.Bus.Routing
import Pipeworks.Proofs.Bus.Shutdown

/-!
# Publishing an event

A call that publishes an event waits for nothing but room in a mailbox. Where the mailboxes of all
subscribers that the event is for are open and have room, it puts the event into each of them and into
no other, two steps for each, and is answered with their number. A bus that is shut down refuses the
event, and the refusal changes nothing.
-/

namespace Pipeworks

variable {σ : Type}

namespace Bus

variable {b : Bus} {d : Delivery} {name other : String} {names left : List String}

/-- A delivery comes into a mailbox. -/
def put (b : Bus) (d : Delivery) (name : String) : Bus :=
  { b.changeMailbox name (fun m => { m with items := m.items ++ [d] }) with
    inFlight := b.inFlight + 1 }

/-- An emission holds on to a mailbox. -/
def hold (b : Bus) (name : String) : Bus :=
  { b.changeMailbox name (fun m => { m with senders := m.senders + 1 }) with
    inFlight := b.inFlight + 1 }

theorem changeMailbox_changeMailbox (b : Bus) (name : String) (f g : Mailbox → Mailbox) :
    (b.changeMailbox name f).changeMailbox name g = b.changeMailbox name fun m => g (f m) := by
  simp only [changeMailbox, List.map_map]
  congr 2
  funext m
  rw [Function.comp_apply]
  by_cases own : m.1 = name <;> simp [own]

theorem emitStep?_find (isOpen : b.IsOpen name) (k q : Nat) (event : Event) (left : List String) :
    b.emitStep? ⟨k, event, name :: left, none, q⟩ =
      some (⟨k, event, left, some name, q⟩, b.hold name) := by
  simp only [emitStep?, isOpen.isLive, if_true, hold]

theorem emitStep?_put (isOpen : b.IsOpen name) (room : ¬ b.IsFull name) (k q : Nat) (event : Event)
    (left : List String) :
    (b.hold name).emitStep? ⟨k, event, left, some name, q⟩ =
      some (⟨k, event, left, none, q + 1⟩, b.put ⟨k, event, 1, none⟩ name) := by
  obtain ⟨m, known, -, receiving⟩ := isOpen
  have free : m.items.length < (b.hold name).capacity := by
    by_contra crowded
    exact room ⟨m.items, by rw [intake, known, ← receiving]; rfl, Nat.le_of_not_lt crowded⟩
  have here : (b.hold name).mailbox? name = some { m with senders := m.senders + 1 } := by
    have held := mailbox?_changeMailbox b name (fun m => { m with senders := m.senders + 1 }) name
    rw [if_pos rfl, known] at held
    exact held
  have both := changeMailbox_changeMailbox b name (fun m => { m with senders := m.senders + 1 })
    fun m => { m with items := m.items ++ [⟨k, event, 1, none⟩], senders := m.senders - 1 }
  simp only [emitStep?, here, receiving, Bool.not_true, Bool.false_eq_true, if_false, if_pos free]
  refine congrArg some (Prod.ext rfl ?_)
  simp only [hold, put, changeMailbox, Bus.mk.injEq, and_true, true_and] at both ⊢
  exact both

theorem mailbox?_put (b : Bus) (d : Delivery) (name other : String) :
    (b.put d name).mailbox? other = if other = name then
      (b.mailbox? other).map fun m => { m with items := m.items ++ [d] } else b.mailbox? other :=
  mailbox?_changeMailbox b name (fun m => { m with items := m.items ++ [d] }) other

theorem contents_put (isOpen : b.IsOpen name) (d : Delivery) (other : String) :
    (b.put d name).contents other = b.contents other ++ if other = name then [d] else [] := by
  rw [contents, contents, mailbox?_put]
  by_cases own : other = name
  · subst own
    obtain ⟨m, known, -⟩ := isOpen
    simp [known]
  · simp [own]

/-- Other mailboxes stay open, and have as much room as before. -/
theorem room_put (apart : other ≠ name) (room : b.IsOpen other ∧ ¬ b.IsFull other) :
    (b.put d name).IsOpen other ∧ ¬ (b.put d name).IsFull other := by
  have same : (b.put d name).mailbox? other = b.mailbox? other := by
    rw [mailbox?_put, if_neg apart]
  refine ⟨?_, fun full => room.2 (full.keep rfl ?_)⟩
  · rw [IsOpen, same]
    exact room.1
  · rw [intake, intake, same]

theorem room_of_cons (once : (name :: left).Nodup)
    (room : ∀ other ∈ name :: left, b.IsOpen other ∧ ¬ b.IsFull other) :
    ∀ other ∈ left, (b.put d name).IsOpen other ∧ ¬ (b.put d name).IsFull other := by
  intro other later
  refine room_put ?_ (room other (List.mem_cons_of_mem _ later))
  rintro rfl
  exact (List.nodup_cons.mp once).1 later

/-- A delivery comes into some mailboxes, once into each. -/
theorem contents_putAll (once : names.Nodup)
    (room : ∀ name ∈ names, b.IsOpen name ∧ ¬ b.IsFull name) (other : String) :
    (names.foldl (·.put d ·) b).contents other =
      b.contents other ++ if other ∈ names then [d] else [] := by
  induction names generalizing b with
  | nil => simp
  | cons name names ih =>
    rw [List.foldl_cons, ih (List.nodup_cons.mp once).2 (room_of_cons once room),
      contents_put (room name (List.mem_cons_self ..)).1, List.append_assoc]
    congr 1
    by_cases own : other = name
    · subst own
      simp [(List.nodup_cons.mp once).1]
    · simp [own]

theorem stats_putAll (names : List String) (d : Delivery) (b : Bus) :
    (names.foldl (·.put d ·) b).stats = b.stats := by
  induction names generalizing b with
  | nil => rfl
  | cons name names ih => exact ih _

/-- One more event is counted. -/
def counted (b : Bus) : Bus := { b with stats := { b.stats with emitted := b.stats.emitted + 1 } }

theorem accept_open (running : b.closed = false) (event : Event) :
    b.accept event = .ok (⟨b.stats.emitted, event, (b.subscribersOf event.topic).filter event.isFor,
      none, 0⟩, b.counted) := by
  rw [accept, if_neg (by simp [running])]
  rfl

theorem accept_closed (shut : b.closed = true) (event : Event) :
    b.accept event = .error (.run .busShutDown) := by
  rw [accept, if_pos shut]

end Bus

/-! ## Calls with room -/

theorem Exchange.finishEmission_open {s : Exchange σ} {left : List String} (once : left.Nodup)
    (room : ∀ name ∈ left, s.bus.IsOpen name ∧ ¬ s.bus.IsFull name) (k q : Nat) (event : Event)
    {fuel : Nat} (enough : 2 * left.length < fuel) :
    s.finishEmission ⟨k, event, left, none, q⟩ fuel =
      (q + left.length, s.onBus fun b => left.foldl (·.put ⟨k, event, 1, none⟩ ·) b) := by
  induction left generalizing s q fuel with
  | nil =>
    obtain ⟨fuel, rfl⟩ := Nat.exists_eq_succ_of_ne_zero (Nat.ne_of_gt enough)
    rw [finishEmission, if_pos (by simp [Emission.isDone])]
    rfl
  | cons name left ih =>
    obtain ⟨fuel, rfl⟩ : ∃ f, fuel = f + 2 := ⟨fuel - 2, by simp at enough; omega⟩
    obtain ⟨isOpen, space⟩ := room name (List.mem_cons_self ..)
    have first : s.bus.emitStep? ⟨k, event, name :: left, none, q⟩ = _ :=
      Bus.emitStep?_find isOpen k q event left
    have second : (s.onBus fun _ => s.bus.hold name).bus.emitStep? ⟨k, event, left, some name, q⟩ = _ :=
      Bus.emitStep?_put isOpen space k q event left
    rw [finishEmission, if_neg (by simp [Emission.isDone])]
    simp only [first]
    rw [finishEmission, if_neg (by simp [Emission.isDone])]
    simp only [second]
    have fewer : 2 * left.length < fuel := by
      rw [List.length_cons] at enough
      omega
    have rest := ih (s := s.onBus (·.put ⟨k, event, 1, none⟩ name)) (List.nodup_cons.mp once).2
      (Bus.room_of_cons once room) (q + 1) fewer
    refine rest.trans (Prod.ext ?_ rfl)
    simp only [List.length_cons]
    omega

namespace Audit

variable {s : Audit σ}

/-- Two steps of a call whose next recipient has room. -/
theorem serve_open {k q i : Nat} {event : Event} {name : String} {left : List String}
    (found : s.callers[i]? = some ⟨k, event, name :: left, none, q⟩) (isOpen : s.bus.IsOpen name)
    (room : ¬ s.bus.IsFull name) :
    (s.serve i).serve i =
      ⟨s.exchange.onBus (·.put ⟨k, event, 1, none⟩ name),
        s.callers.set i ⟨k, event, left, none, q + 1⟩,
        s.history ++ [.queued name ⟨k, event, 1, none⟩]⟩ := by
  have undone (left : List String) (holding : Option String)
      (more : left ≠ [] ∨ holding ≠ none) :
      ¬ Emission.isDone ⟨k, event, left, holding, q⟩ = true := by
    cases left <;> cases holding <;> simp_all [Emission.isDone]
  obtain ⟨inside, -⟩ := List.getElem?_eq_some_iff.mp found
  have first : s.serve i = ⟨s.exchange.onBus fun _ => s.bus.hold name,
      s.callers.set i ⟨k, event, left, some name, q⟩, s.history⟩ := by
    simp only [serve, found, if_neg (undone (name :: left) none (.inl (by simp))),
      Bus.emitStep?_find isOpen, Bus.emitNotes, List.append_nil]
  have next : (s.callers.set i ⟨k, event, left, some name, q⟩)[i]? =
      some ⟨k, event, left, some name, q⟩ := List.getElem?_set_self inside
  have step : (bus ⟨s.exchange.onBus fun _ => s.bus.hold name,
      s.callers.set i ⟨k, event, left, some name, q⟩, s.history⟩).emitStep?
        ⟨k, event, left, some name, q⟩ = _ := Bus.emitStep?_put isOpen room k q event left
  rw [first]
  simp only [serve, next, if_neg (undone left (some name) (.inr (by simp))), step, Bus.emitNotes,
    if_pos (Nat.lt_succ_self q), List.set_set]
  rfl

/-- A call with room for all that it has to serve is answered with their number. -/
theorem serve_all {k q i : Nat} {event : Event} {left : List String} (once : left.Nodup)
    (room : ∀ name ∈ left, s.bus.IsOpen name ∧ ¬ s.bus.IsFull name)
    (found : s.callers[i]? = some ⟨k, event, left, none, q⟩) :
    (List.replicate (2 * left.length + 1) (Act.serve i)).foldl act s =
      ⟨s.exchange.onBus fun b => left.foldl (·.put ⟨k, event, 1, none⟩ ·) b, s.callers.eraseIdx i,
        s.history ++ left.map (.queued · ⟨k, event, 1, none⟩) ++
          [.answered ⟨k, event, [], none, q + left.length⟩]⟩ := by
  induction left generalizing s q with
  | nil =>
    have done : s.serve i = ⟨s.exchange, s.callers.eraseIdx i,
        s.history ++ [.answered ⟨k, event, [], none, q⟩]⟩ := by
      simp only [serve, found]
      rw [if_pos (by simp [Emission.isDone])]
    rw [List.map_nil, List.append_nil]
    exact done
  | cons name left ih =>
    obtain ⟨isOpen, space⟩ := room name (List.mem_cons_self ..)
    obtain ⟨inside, -⟩ := List.getElem?_eq_some_iff.mp found
    have steps : 2 * (name :: left).length + 1 = (2 * left.length + 1) + 1 + 1 := by
      rw [List.length_cons]
      omega
    have rest := ih (s := ⟨s.exchange.onBus (·.put ⟨k, event, 1, none⟩ name),
      s.callers.set i ⟨k, event, left, none, q + 1⟩,
      s.history ++ [.queued name ⟨k, event, 1, none⟩]⟩) (List.nodup_cons.mp once).2
      (Bus.room_of_cons once room) (List.getElem?_set_self inside)
    rw [steps, List.replicate_succ, List.replicate_succ, List.foldl_cons, List.foldl_cons]
    simp only [act]
    rw [serve_open found isOpen space, rest]
    simp only [List.eraseIdx_set_eq, List.map_cons, List.append_assoc, List.length_cons,
      List.cons_append]
    rw [show q + 1 + left.length = q + (left.length + 1) by omega]
    rfl

/-- From one audit to another an event was accepted and put into the mailboxes of some subscribers,
whose number its publisher was told; no other mailbox and no other counter changed. -/
structure Publishes (s : Audit σ) (event : Event) (names : List String) (s' : Audit σ) : Prop where
  history : s'.history = s.history ++
    .accepted ⟨s.bus.stats.emitted, event, names, none, 0⟩ ::
      names.map (.queued · ⟨s.bus.stats.emitted, event, 1, none⟩) ++
      [.answered ⟨s.bus.stats.emitted, event, [], none, names.length⟩]
  contents : ∀ name, s'.bus.contents name = s.bus.contents name ++
    if name ∈ names then [⟨s.bus.stats.emitted, event, 1, none⟩] else []
  stats : s'.bus.stats = { s.bus.stats with emitted := s.bus.stats.emitted + 1 }
  callers : s'.callers = s.callers

/-- The acts of a call that publishes an event with nobody in between. -/
def publication (s : Audit σ) (event : Event) (recipients : Nat) : List (Act σ) :=
  .publish event :: List.replicate (2 * recipients + 1) (.serve s.callers.length)

theorem publishes {event : Event} {names : List String}
    (recipients : (s.bus.subscribersOf event.topic).filter event.isFor = names)
    (running : s.bus.closed = false) (once : names.Nodup)
    (room : ∀ name ∈ names, s.bus.IsOpen name ∧ ¬ s.bus.IsFull name) :
    s.Publishes event names ((s.publication event names.length).foldl act s) := by
  have taken := Bus.accept_open running event
  rw [recipients] at taken
  have first : s.publish event = ⟨s.exchange.onBus Bus.counted,
      s.callers ++ [⟨s.bus.stats.emitted, event, names, none, 0⟩],
      s.history ++ [.accepted ⟨s.bus.stats.emitted, event, names, none, 0⟩]⟩ := by
    rw [publish, taken]
    rfl
  have all := serve_all (s := s.publish event) once (by rw [first]; exact room)
    (by rw [first]; exact List.getElem?_concat_length ..)
  rw [publication, List.foldl_cons, act, all, first]
  refine ⟨?_, Bus.contents_putAll (b := s.bus.counted) once room, Bus.stats_putAll .., ?_⟩
  · simp only [Nat.zero_add, List.append_assoc, List.cons_append, List.nil_append]
  · simp only [List.eraseIdx_append_of_length_le (Nat.le_refl _), Nat.sub_self,
      List.eraseIdx_cons_zero, List.append_nil]

theorem emit_open {event : Event} {names : List String}
    (recipients : (s.bus.subscribersOf event.topic).filter event.isFor = names)
    (running : s.bus.closed = false) (once : names.Nodup)
    (room : ∀ name ∈ names, s.bus.IsOpen name ∧ ¬ s.bus.IsFull name) {fuel : Nat}
    (enough : 2 * names.length < fuel) :
    (s.exchange.emit event fuel).1 = .ok names.length := by
  have taken := Bus.accept_open running event
  rw [recipients] at taken
  have taken : s.exchange.bus.accept event = _ := taken
  have all := Exchange.finishEmission_open (s := s.exchange.onBus Bus.counted) once room
    s.bus.stats.emitted 0 event enough
  rw [Nat.zero_add] at all
  rw [Exchange.emit, taken]
  exact congrArg (fun r => Except.ok r.1) all

/-! ## Runs -/

/-- An event is accepted for those who have subscribed so far. -/
theorem accepted_play (policy : Policy) (world : σ) (acts : List (Act σ)) :
    ∀ e₀ ∈ accepted (play policy world acts).history, ∃ before, before <+: acts ∧
      e₀ = ⟨(play policy world before).bus.stats.emitted, e₀.event,
        addressees (roll policy before) e₀.event, none, 0⟩ := by
  induction acts using List.reverseRecOn with
  | nil => exact fun e₀ he₀ => absurd he₀ List.not_mem_nil
  | append_singleton acts a ih =>
    obtain ⟨ns, exchange, callers, steps, next⟩ := (play policy world acts).steps_act a
    rw [play_concat, next]
    intro e₀ he₀
    rw [accepted_append] at he₀
    rcases List.mem_append.mp he₀ with old | new
    · obtain ⟨before, early, is⟩ := ih e₀ old
      exact ⟨before, early.trans (List.prefix_append ..), is⟩
    · refine ⟨acts, List.prefix_append .., ?_⟩
      cases steps.emits [] with
      | quiet silent =>
        rw [(accepted_of_silent silent).1] at new
        exact absurd new List.not_mem_nil
      | answered => exact absurd new List.not_mem_nil
      | served rest step =>
        rw [step.same.2.2.1] at new
        exact absurd new List.not_mem_nil
      | accepted ok =>
        obtain rfl := List.mem_singleton.mp new
        obtain ⟨-, rfl, -⟩ := Bus.accept_ok ok
        rw [(enrolled_play policy world acts).recipients]

end Audit

/-- A bus is closed from the moment when no mailbox is found any more. -/
theorem Exchange.Steps.closed_eq {s s' : Exchange σ} {ns : List Note} (steps : s.Steps ns s')
    (same : s.bus.closed = s.closing.isShut) : s'.bus.closed = s'.closing.isShut := by
  cases steps with
  | dispatched found step => exact step.hands.2.2.2.trans same
  | worked found step | finished found step => exact step.aside.closed.trans same
  | requeued step => cases step <;> exact same
  | closed => rfl
  | joined deadline next aborted joining | aborted deadline next aborted joining
  | truncated deadline next aborted joining =>
    rw [joining] at same
    exact same
  | drained deadline aborted retries truncated draining =>
    rw [draining] at same
    exact same
  | _ => exact same

namespace Audit

theorem closed_play (policy : Policy) (world : σ) (acts : List (Act σ)) :
    (play policy world acts).bus.closed = (play policy world acts).exchange.closing.isShut := by
  refine play_induction (P := fun s => s.bus.closed = s.exchange.closing.isShut) rfl ?_ acts
  intro s ns exchange callers same steps
  cases steps with
  | subscribed running ok =>
    obtain ⟨bus, done, rfl⟩ := Exchange.subscribe_ok ok
    obtain ⟨-, rfl⟩ := Bus.subscribe_ok done
    exact same
  | published ok =>
    obtain ⟨-, -, rfl⟩ := Bus.accept_ok ok
    exact same
  | served found step => exact step.aside.closed.trans same
  | moved step => exact step.closed_eq same
  | shut running =>
    rw [Exchange.isRunning_iff.mp running] at same
    exact same
  | idle | started | answered | touched => exact same

/-- What a bus does with an event that is published now, where the subscribers of a roll are those that
have subscribed. -/
structure Routes (s : Audit σ) (rows : List (String × List String)) (event : Event) : Prop where
  /-- Those that the event is for, if the bus has not been shut down. -/
  accepts : s.bus.closed = false → s.bus.accept event =
    .ok (⟨s.bus.stats.emitted, event, addressees rows event, none, 0⟩, s.bus.counted)
  /-- A call that nobody interrupts puts it into their mailboxes and tells their number. -/
  publishes : s.bus.closed = false →
    (∀ name ∈ addressees rows event, s.bus.IsOpen name ∧ ¬ s.bus.IsFull name) →
    s.Publishes event (addressees rows event)
      ((s.publication event (addressees rows event).length).foldl act s) ∧
    ∀ fuel, 2 * (addressees rows event).length < fuel →
      (s.exchange.emit event fuel).1 = .ok (addressees rows event).length
  /-- A bus that is shut down refuses it, whoever publishes it, and nothing changes. -/
  refuses : s.exchange.closing.isShut = true →
    s.act (.publish event) = s ∧
    (∀ fuel, s.exchange.emit event fuel = (.error (.run .busShutDown), s.exchange)) ∧
    ∀ next, Activity.step? s.exchange.floor (.running (.emit event next)) =
      some (.on (.running (next (.error (.run .busShutDown)))), s.exchange.floor)

/-- After any schedule the tables of a bus hold the accepted subscriptions, the first of each name. Every
accepted event was accepted for the subscribers that it was for then, and has only been put into their
mailboxes, in their order and once into each. A call that was answered was told their number; these are
all of them unless a mailbox has been closed. A call waits only for room, and events are counted when
they are accepted. -/
theorem queued_for_exactly_subscribers (policy : Policy) (world : σ) (acts : List (Act σ)) :
    let s := play policy world acts
    let rows := roll policy acts
    ((rows.map Prod.fst).Nodup ∧ s.Enrolled rows ∧
      (s.exchange.isRunning → ∀ name ∈ rows.map Prod.fst, ∀ topics deliver,
        s.exchange.subscribe name topics deliver = .failed (.config (.subscribedTwice name)) ∧
        s.act (.subscribe name topics deliver) = s)) ∧
    (∀ e₀ ∈ accepted s.history,
      (∃ before, before <+: acts ∧ e₀ = ⟨(play policy world before).bus.stats.emitted, e₀.event,
        addressees (roll policy before) e₀.event, none, 0⟩) ∧
      e₀.left.Nodup ∧ (putInto e₀.serial s.history).Sublist e₀.left) ∧
    (∀ e, .answered e ∈ s.history → ∃ e₀ ∈ accepted s.history, e₀.serial = e.serial ∧
      e.queued = (putInto e.serial s.history).length ∧
      ((∀ name ∈ e₀.left, s.bus.IsOpen name) → putInto e.serial s.history = e₀.left)) ∧
    (∀ e ∈ s.calls, e.isDone = false → s.bus.emitStep? e = none →
      ∃ name, e.holding = some name ∧ s.bus.IsFull name) ∧
    s.bus.stats.emitted = (accepted s.history).length ∧
    ∀ event, s.Routes rows event := by
  intro s rows
  have enrolled : s.Enrolled rows := enrolled_play policy world acts
  have nodup : (rows.map Prod.fst).Nodup := nodup_roll policy acts
  have sound : s.Sound policy := sound_play policy world acts
  have called : s.Called := called_play policy world acts
  have routed : s.Routed := routed_play policy world acts
  have origin := accepted_play policy world acts
  have once (e₀ : Emission) (he₀ : e₀ ∈ accepted s.history) : e₀.left.Nodup := by
    obtain ⟨before, -, is⟩ := origin e₀ he₀
    rw [is]
    exact (nodup_roll policy before).sublist (addressees_sublist _ _)
  refine ⟨⟨nodup, enrolled, fun running name known topics deliver =>
      enrolled.refused sound running known topics deliver⟩,
    fun e₀ he₀ => ⟨origin e₀ he₀, once e₀ he₀, routed.part e₀ he₀⟩, fun e told => ?_,
    fun e _ undone waits => Bus.holding_of_emitStep? waits undone, ?_, fun event => ?_⟩
  · obtain ⟨e₀, he₀, same⟩ := called.of_answered told
    obtain ⟨done, served⟩ := routed.told e told
    have served := served e₀ he₀ same
    exact ⟨e₀, he₀, same, served.counted, served.all done (once e₀ he₀)⟩
  · have numbers := congrArg List.length called.numbered
    rw [List.length_map, List.length_range] at numbers
    exact numbers.symm
  · have recipients := enrolled.recipients event
    have distinct := nodup.sublist (addressees_sublist rows event)
    refine ⟨fun running => ?_, fun running room => ⟨publishes recipients running distinct room,
      fun fuel enough => emit_open recipients running distinct room enough⟩, fun shut => ?_⟩
    · rw [Bus.accept_open running, recipients]
    · have closed : s.bus.closed = true := (closed_play policy world acts).trans shut
      have refused : s.exchange.floor.bus.accept event = _ := Bus.accept_closed closed event
      have silent : s.bus.accept event = _ := refused
      refine ⟨by simp only [act, publish, silent], fun fuel => ?_, fun next => ?_⟩
      · rw [Exchange.emit, show s.exchange.bus.accept event = _ from refused]
      · simp only [Activity.step?, Activity.workStep?, refused]

/-- Three subscribers, one of which lists a topic twice and comes again under its name. An event is
published for a topic, another one for a target only, and a third one for nobody. -/
def mailing : List (Act Unit) :=
  [.subscribe "a" ["t", "t", "u"] fun _ => .done, .subscribe "b" ["u"] fun _ => .done,
    .subscribe "a" ["v"] fun _ => .done, .subscribe "c" ["u", "t"] fun _ => .done, .start,
    .publish (.plain "t" .null), .publish ⟨"u", .null, none, none, some "c"⟩,
    .serve 0, .serve 1, .serve 0, .serve 0, .serve 1, .serve 0, .serve 1, .serve 0,
    .publish (.plain "v" .null), .serve 0]

set_option maxRecDepth 8000 in
/-- The first event is queued for two subscribers and the second for its target; all three count, a name
that is taken is refused, and another event would be queued for three. -/
theorem mailing_queued :
    (∃ e₀ ∈ accepted (play .standard () mailing).history, e₀.left = ["a", "c"] ∧
      putInto 0 (play .standard () mailing).history = e₀.left ∧
      2 = (putInto 0 (play .standard () mailing).history).length) ∧
    putInto 1 (play .standard () mailing).history = ["c"] ∧
    (play .standard () mailing).bus.stats.emitted = 3 ∧
    (play .standard () mailing).act (.subscribe "a" ["v"] fun _ => .done) =
      play .standard () mailing ∧
    ((play .standard () mailing).exchange.emit (.plain "u" .null) 7).1 = .ok 3 := by
  obtain ⟨⟨-, -, refused⟩, -, told, -, counted, routes⟩ :=
    queued_for_exactly_subscribers .standard () mailing
  have room : ∀ name ∈ ["a", "b", "c"], (play .standard () mailing).bus.IsOpen name ∧
      ¬ (play .standard () mailing).bus.IsFull name := by
    intro name here
    simp only [List.mem_cons, List.not_mem_nil, or_false] at here
    rcases here with rfl | rfl | rfl <;>
      exact ⟨⟨_, rfl, rfl, rfl⟩, fun full => (full.not_room rfl).2 (by decide)⟩
  have all : accepted (play .standard () mailing).history =
      [⟨0, .plain "t" .null, ["a", "c"], none, 0⟩,
        ⟨1, ⟨"u", .null, none, none, some "c"⟩, ["c"], none, 0⟩,
        ⟨2, .plain "v" .null, [], none, 0⟩] := rfl
  refine ⟨?_, rfl, counted.trans rfl, (refused rfl "a" (by decide) ["v"] _).2,
    ((routes (.plain "u" .null)).publishes rfl room).2 7 (by decide)⟩
  obtain ⟨e₀, he₀, same, number, whole⟩ :=
    told ⟨0, .plain "t" .null, [], none, 2⟩ (List.mem_of_getElem? (i := 6) rfl)
  have first : e₀.left = ["a", "c"] := by
    rw [all] at he₀
    simp only [List.mem_cons, List.not_mem_nil, or_false] at he₀
    rcases he₀ with rfl | rfl | rfl
    · rfl
    · exact absurd same (by decide)
    · exact absurd same (by decide)
  refine ⟨e₀, he₀, first, whole fun name here => (room name ?_).1, number⟩
  rw [first] at here
  exact List.mem_of_mem_filter (p := (· != "b")) here

end Audit

end Pipeworks
