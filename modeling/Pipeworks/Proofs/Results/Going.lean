import Pipeworks.Proofs.Results.Office

/-!
# Buses that go on

As long as the bus runs, a dispatcher waits or owes what its work has still to bring, tracked work
owes its own dues, and the bus is solvent for all of them and for what is kept elsewhere. Every
step of the exchange keeps this, provided that no stream expires and nobody crashes. When nothing is
in flight any more, nobody owes anything, so everything has been handed over; from then on nothing
is.
-/

namespace Pipeworks

variable {σ : Type}

/-- What the work of a subscriber that waits or works owes. -/
def Post.Owes (P : Plant σ) (name : String) : Post σ → Multiset Due → Prop
  | .idle, owed => owed = 0
  | .handling x a, owed => a.Owes P (P.Ends name x.event) owed
  | _, _ => False

/-- Whether a dispatcher handles nothing and has not crashed. -/
def Post.isFree : Post σ → Bool
  | .idle | .over | .aborted => true
  | _ => false

/-- Whether no stream expires between two states: as long as the bus is not closed, the registry
lets go of no stream that has expired, unless it is finished and claimed. -/
def Exchange.sparesStreams (s s' : Exchange σ) : Bool :=
  s.closing.isShut || s.bus.streams.channels.all fun (id, c) =>
    !c.listed || !c.isExpired s.clock s.bus.policy.streamTtl || (c.finished && c.reader != .parked)
      || (s'.bus.streams.get? id).any (·.listed)

theorem Bus.streams_fail (b : Bus) (now : Nat) (name : String) (d : Delivery) (e : Fault) :
    (b.fail now name d e).streams = b.streams := by
  rw [fail]
  split <;> rfl

/-- A clean-up that lets no stream expire finds none that has expired, but for those that are
finished and claimed. -/
theorem Exchange.served_of_sparesStreams {s s' : Exchange σ} (spares : s.sparesStreams s' = true)
    (opened : s.closing.isShut = false)
    (swept : s'.bus.streams = (s.bus.streams.cleanup s.clock s.bus.policy.streamTtl).2) {id : String}
    {c : Channel} (known : s.bus.streams.get? id = some c) (listed : c.listed = true)
    (old : c.isExpired s.clock s.bus.policy.streamTtl = true) :
    (c.finished && c.reader != .parked) = true := by
  obtain ⟨before, after, split, -⟩ := List.lookup_eq_some_iff.mp known
  have here : (id, c) ∈ s.bus.streams.channels := by simp [split]
  rw [sparesStreams, opened, Bool.false_or] at spares
  have spared := List.all_eq_true.mp spares _ here
  simp only [listed, old, Bool.not_true, Bool.false_or, Bool.or_eq_true] at spared
  rcases spared with done | stays
  · exact done
  · have found := s.bus.streams.get?_map fun c => c.clean s.clock s.bus.policy.streamTtl
    rw [swept, Streams.cleanup, found, known, Option.map_some, Option.any_some, Channel.clean,
      Channel.isDisposable, listed, old, Bool.true_or, Bool.true_and, if_pos rfl] at stays
    exact absurd stays Bool.false_ne_true

namespace Plant

variable {P : Plant σ} {f f' : Floor σ} {owed rest kept : Multiset Due}
  {total : Multiset (String × Json)}

/-- The results of a value, for all outputs. -/
def results (P : Plant σ) (v : Json) : Multiset (String × Json) :=
  (P.outputs.map fun o => goodsFor o (yield? [] (P.pieces v))).sum

/-- A dispatcher of a subscriber that takes part, and what its work owes. -/
structure Staffed (P : Plant σ) (d : Dispatcher σ) (owed : Multiset Due) : Prop where
  member : P.Member d.name
  works : P.Works d.name d.deliver
  owes : d.post.Owes P d.name owed

/-- Where the bus changes and its streams do not, what is handed over stays the same. -/
theorem Solvent.pass (solvent : P.Solvent f owed total)
    (handed : P.handed f'.world = P.handed f.world) (streams : f'.bus.streams = f.bus.streams)
    (office : ∀ mail, P.Office f.bus mail → P.Office f'.bus mail) : P.Solvent f' owed total := by
  obtain ⟨mail, goods, before, backs, sum⟩ := solvent
  refine ⟨mail, goods, office mail before, ?_, ?_⟩
  · rw [streams]
    exact backs
  · rw [handed]
    exact sum

theorem promiseAll {s : Streams} {dues : Multiset Due} {goods : Multiset (String × Json)}
    {pieces : List Piece} (final : FinalLast pieces) (backs : s.Backs dues goods)
    (outputs : List String) :
    s.Backs (↑(outputs.map fun o => Due.promised o pieces) + dues)
      ((outputs.map fun o => goodsFor o (yield? [] pieces)).sum + goods) := by
  induction outputs with
  | nil =>
    rw [List.map_nil, List.map_nil, List.sum_nil, Multiset.coe_nil, zero_add, zero_add]
    exact backs
  | cons o outputs ih =>
    rw [List.map_cons, List.map_cons, List.sum_cons, ← Multiset.cons_coe, Multiset.cons_add, add_assoc]
    exact ih.promise final

/-- What is promised for a value comes with its results. -/
theorem Solvent.promise (lawful : P.Lawful) (solvent : P.Solvent f owed total) (v : Json) :
    P.Solvent f (P.promises v + owed) (total + P.results v) := by
  obtain ⟨mail, goods, office, backs, sum⟩ := solvent
  refine ⟨mail, P.results v + goods, office, ?_, ?_⟩
  · rw [add_left_comm]
    exact promiseAll (lawful.final v) backs P.outputs
  · rw [← sum]
    ac_rfl

/-! ## Retries -/

/-- What comes to nothing has no results. -/
theorem Dud.results {name : String} {e : Event} (dud : P.Dud name e) :
    P.results (inputOf e) = 0 := by
  rw [Plant.results, dud.2]
  exact List.sum_eq_zero fun x hx => (List.mem_map.mp hx).elim fun o ho => ho.2.symm

/-- Retries of deliveries that come to nothing may be moved about. -/
theorem Solvent.shuffle {bus : Bus} (solvent : P.Solvent f owed total)
    (topics : bus.topics = f.bus.topics) (closed : bus.closed = f.bus.closed)
    (mailboxes : bus.mailboxes = f.bus.mailboxes) (streams : bus.streams = f.bus.streams)
    (moved : ∀ r ∈ bus.retries ++ bus.requeuing, ∃ r' ∈ f.bus.retries ++ f.bus.requeuing,
      r.subscriber = r'.subscriber ∧ r.event = r'.event) : P.Solvent { f with bus } owed total := by
  have roster : bus.roster = f.bus.roster := by rw [Bus.roster, mailboxes, Bus.roster]
  refine solvent.pass rfl streams fun mail office => ?_
  refine office.keep topics closed roster ?_ fun r hr => ?_
  · rw [mailboxes]
    exact office.stocked
  · obtain ⟨r', hr', subscriber, event⟩ := moved r hr
    rw [subscriber, event]
    exact office.duds r' hr'

/-- A retry in the hand comes to nothing, so it may be queued again for free. -/
theorem Solvent.requeue (lawful : P.Lawful) {ns : List Note} {now : Nat} {bus : Bus}
    (solvent : P.Solvent f owed total) (requeues : f.bus.Requeues now ns bus) :
    P.Solvent { f with bus } owed total := by
  cases requeues with
  | returned r rest hand dead =>
    refine solvent.shuffle rfl rfl rfl rfl fun x hx => ?_
    refine ⟨x, ?_, rfl, rfl⟩
    rw [hand]
    simp only [List.mem_append, List.mem_cons, List.not_mem_nil, or_false] at hx ⊢
    tauto
  | put r rest m hand known listed receiving room =>
    have here : r ∈ f.bus.retries ++ f.bus.requeuing := by simp [hand]
    obtain ⟨_, _, office, -, -⟩ := id solvent
    have dud := office.duds r here
    have free := solvent.promise lawful (inputOf r.event)
    rw [dud.results, add_zero] at free
    obtain ⟨mail, goods, office, backs, sum⟩ := free
    have owes : P.Mail r.event r.subscriber (P.promises (inputOf r.event)) := by
      rw [dud.1]
      exact .input
    let again : Delivery := ⟨r.serial, r.event, r.attempts + 1, some r.firstFailure⟩
    have roster := f.bus.roster_changeMailbox r.subscriber
      (f := fun m => { m with items := m.items ++ [again] }) fun _ => rfl
    refine ⟨mail + P.promises (inputOf r.event), goods, ?_, ?_, sum⟩
    · refine office.keep rfl rfl roster ?_ fun x hx => ?_
      · exact office.put (f := fun m => { m with items := m.items ++ [again] }) (d := again) owes
          fun _ => ⟨rfl, rfl, rfl⟩
      · refine office.duds x ?_
        rw [hand]
        rcases List.mem_append.mp hx with hx | hx
        · exact List.mem_append_left _ hx
        · exact List.mem_append_right _ (List.mem_cons_of_mem _ hx)
    · rw [add_assoc]
      exact backs
  | full r rest m hand known listed crowded =>
    refine solvent.shuffle rfl rfl rfl rfl fun x hx => ?_
    rw [hand]
    rcases List.mem_append.mp hx with hx | hx
    · rcases List.mem_append.mp hx with hx | hx
      · exact ⟨x, List.mem_append_left _ hx, rfl, rfl⟩
      · obtain rfl := List.mem_singleton.mp hx
        exact ⟨r, List.mem_append_right _ (List.mem_cons_self ..), rfl, rfl⟩
    · exact ⟨x, List.mem_append_right _ (List.mem_cons_of_mem _ hx), rfl, rfl⟩

theorem Solvent.takeDue (solvent : P.Solvent f owed total) (now : Nat) :
    P.Solvent { f with bus := f.bus.takeDue now } owed total := by
  refine solvent.shuffle rfl rfl rfl rfl fun r hr => ⟨r, ?_, rfl, rfl⟩
  rw [Bus.takeDue, Retries.takeDue, List.partition_eq_filter_filter] at hr
  simp only [List.mem_append, List.mem_filter] at hr ⊢
  tauto

/-- A clean-up that lets no stream expire takes nothing away. -/
theorem Solvent.sweep (solvent : P.Solvent f owed total)
    (served : ∀ id c, f.bus.streams.get? id = some c → c.listed = true →
      c.isExpired f.clock f.bus.policy.streamTtl = true →
        (c.finished && c.reader != .parked) = true) :
    P.Solvent { f with bus := f.bus.sweep f.clock } owed total := by
  obtain ⟨mail, goods, office, backs, sum⟩ := solvent
  refine ⟨mail, goods, office.keep rfl rfl rfl office.stocked fun r hr => ?_,
    backs.cleanup served, sum⟩
  rw [Bus.sweep, Retries.purge, List.partition_eq_filter_filter] at hr
  simp only [List.mem_append, List.mem_filter] at hr
  refine office.duds r (List.mem_append.mpr ?_)
  tauto

/-! ## Dispatchers -/

/-- Every step of a dispatcher that does not crash in it carries on. -/
theorem carries_dispatcher {d d' : Dispatcher σ} (staffed : P.Staffed d owed)
    (solvent : P.Solvent f (owed + rest) total) (h : d.step? f = some (d', f'))
    (awake : d'.hasCrashed = false) :
    ∃ owed' begun new, P.Staffed d' owed' ∧ f'.tasks = f.tasks ++ new ∧
      Shares P.Busy new begun ∧ P.Solvent f' (owed' + begun + rest) total := by
  obtain ⟨member, works, owes⟩ := staffed
  rw [Dispatcher.step?] at h
  cases post : d.post with
  | idle =>
    simp only [post] at h
    rw [post] at owes
    obtain rfl : owed = 0 := owes
    rw [zero_add] at solvent
    cases taken : f.bus.take? d.name with
    | some r =>
      obtain ⟨x, bus⟩ := r
      simp only [taken] at h
      obtain ⟨rfl, rfl⟩ := Prod.mk.inj (Option.some.inj h)
      obtain ⟨share, due, after⟩ := solvent.take taken
      refine ⟨share, 0, [], ⟨member, works, works x.event share due⟩, (List.append_nil _).symm, .nil, ?_⟩
      rw [add_zero]
      exact after
    | none =>
      obtain ⟨_, _, office, -⟩ := solvent
      obtain ⟨m, known, listed, -⟩ := office.box member
      simp [taken, Bus.isExhausted, known, listed] at h
  | handling x a =>
    simp only [post] at h
    rw [post] at owes
    cases step : a.step? f with
    | none => simp [step] at h
    | some r =>
      obtain ⟨stride, f₁⟩ := r
      have allowed : ∀ text, stride = .ended (.panicked text) →
          P.Ends d.name x.event (.panicked text) := by
        rintro text rfl
        simp only [step] at h
        obtain ⟨rfl, -⟩ := Prod.mk.inj (Option.some.inj h)
        exact absurd awake (by simp [Dispatcher.hasCrashed])
      obtain ⟨owed', begun, new, goes, tasks, busy, after⟩ := carries_step? owes solvent step allowed
      cases stride with
      | on a' =>
        simp only [step] at h
        obtain ⟨rfl, rfl⟩ := Prod.mk.inj (Option.some.inj h)
        exact ⟨owed', begun, new, ⟨member, works, goes⟩, tasks, busy, after⟩
      | ended o =>
        obtain ⟨fits, rfl⟩ := goes
        rcases fits with rfl | ⟨fault, rfl, dud⟩
        · simp only [step] at h
          obtain ⟨rfl, rfl⟩ := Prod.mk.inj (Option.some.inj h)
          refine ⟨0, begun, new, ⟨member, works, rfl⟩, tasks, busy, after.pass rfl rfl ?_⟩
          exact fun mail office => office.keep rfl rfl rfl office.stocked office.duds
        · simp only [step] at h
          obtain ⟨rfl, rfl⟩ := Prod.mk.inj (Option.some.inj h)
          refine ⟨0, begun, new, ⟨member, works, rfl⟩, tasks, busy, after.pass rfl ?_ ?_⟩
          · exact Bus.streams_fail ..
          · exact fun mail office => office.fail dud
  | _ => simp [post] at h

/-! ## Exchanges -/

/-- A bus that goes on: it is solvent for what dispatchers and tracked work owe and for what is
kept elsewhere. -/
def Going (P : Plant σ) (s : Exchange σ) (kept : Multiset Due)
    (total : Multiset (String × Json)) : Prop :=
  ∃ staff begun, Shares P.Staffed s.dispatchers staff ∧ Shares P.Busy s.floor.tasks begun ∧
    P.Solvent s.floor (staff + begun + kept) total

variable {s s' : Exchange σ}

/-- What changes neither the dispatchers nor the tracked work. -/
theorem Going.pass (going : P.Going s kept total) (dispatchers : s'.dispatchers = s.dispatchers)
    (tasks : s'.floor.tasks = s.floor.tasks)
    (solvent : ∀ owed, P.Solvent s.floor owed total → P.Solvent s'.floor owed total) :
    P.Going s' kept total := by
  obtain ⟨staff, begun, staffed, busy, before⟩ := going
  refine ⟨staff, begun, ?_, ?_, solvent _ before⟩
  · rw [dispatchers]
    exact staffed
  · rw [tasks]
    exact busy

theorem Going.dispatcher {i : Nat} (going : P.Going s kept total)
    (h : s.dispatcherStep? i = some s') (calm : s'.isCalm) : P.Going s' kept total := by
  obtain ⟨d, found, h⟩ := Option.bind_eq_some_iff.mp h
  obtain ⟨⟨d', f'⟩, step, rfl⟩ := Option.map_eq_some_iff.mp h
  obtain ⟨staff, begun, staffed, busy, solvent⟩ := going
  obtain ⟨share, others, rfl, has, -, next⟩ := staffed.split found
  rw [add_assoc share, add_assoc share] at solvent
  have awake : d'.hasCrashed = false := Exchange.isCalm_iff.mp calm d' (Exchange.mem_set found d')
  obtain ⟨owed, more, new, has', tasks, busy', after⟩ := carries_dispatcher has solvent step awake
  refine ⟨owed + others, begun + more, next d' owed has', ?_, ?_⟩
  · dsimp only
    rw [tasks]
    exact busy.append busy'
  · have same : owed + others + (begun + more) + kept = owed + more + (others + begun + kept) := by
      ac_rfl
    rw [same]
    exact after

theorem Going.task {i : Nat} (going : P.Going s kept total) (h : s.taskStep? i = some s') :
    P.Going s' kept total := by
  obtain ⟨a, found, h⟩ := Option.bind_eq_some_iff.mp h
  obtain ⟨⟨stride, f'⟩, step, rfl⟩ := Option.map_eq_some_iff.mp h
  obtain ⟨inside, -⟩ := List.getElem?_eq_some_iff.mp found
  obtain ⟨staff, begun, staffed, busy, solvent⟩ := going
  obtain ⟨share, others, rfl, has, rest, next⟩ := busy.split found
  have same : staff + (share + others) + kept = share + (staff + others + kept) := by ac_rfl
  rw [same] at solvent
  obtain ⟨owed, more, new, goes, tasks, busy', after⟩ := carries_step? has solvent step fun _ _ => trivial
  have swap : staff + (owed + others + more) + kept = owed + more + (staff + others + kept) := by
    ac_rfl
  cases stride with
  | on a' =>
    refine ⟨staff, owed + others + more, staffed, ?_, ?_⟩
    · dsimp only
      rw [tasks, List.set_append_left i a' inside]
      exact (next a' owed goes).append busy'
    · rw [swap]
      exact after
  | ended o =>
    obtain ⟨-, rfl⟩ := goes
    rw [zero_add] at swap
    refine ⟨staff, others + more, staffed, ?_, ?_⟩
    · dsimp only
      rw [tasks, List.eraseIdx_append_of_lt_length inside]
      exact rest.append busy'
    · rw [swap]
      refine after.pass rfl rfl fun mail office => ?_
      exact office.keep rfl rfl rfl office.stocked office.duds

/-- Whoever publishes an input keeps what is promised for it. -/
theorem Going.promise (lawful : P.Lawful) (going : P.Going s kept total) (v : Json) :
    P.Going s (P.promises v + kept) (total + P.results v) := by
  obtain ⟨staff, begun, staffed, busy, solvent⟩ := going
  refine ⟨staff, begun, staffed, busy, ?_⟩
  rw [add_left_comm]
  exact solvent.promise lawful v

/-- An event from outside is accepted for its recipients. -/
theorem Going.accept {e : Event} {emission : Emission} {bus : Bus} (going : P.Going s kept total)
    (ok : s.bus.accept e = .ok (emission, bus)) :
    emission.event = e ∧ emission.pending = P.recipients e ∧
      P.Going (s.onBus fun _ => bus) kept total := by
  obtain ⟨staff, begun, staffed, busy, solvent⟩ := going
  obtain ⟨_, _, accepted, event, pending, after⟩ := solvent.accept e
  obtain ⟨rfl, rfl⟩ := Prod.mk.inj (Except.ok.inj (accepted.symm.trans ok))
  exact ⟨event, pending, staff, begun, staffed, busy, after⟩

/-- An emission from outside serves a recipient. -/
theorem Going.serves {e e' : Emission} {ns : List Note} {bus : Bus} (going : P.Going s kept total)
    (shares : Shares (P.Mail e.event) e.pending kept) (serves : s.bus.Serves e ns e' bus) :
    ∃ kept', Shares (P.Mail e'.event) e'.pending kept' ∧
      P.Going (s.onBus fun _ => bus) kept' total := by
  obtain ⟨staff, begun, staffed, busy, solvent⟩ := going
  rw [add_comm] at solvent
  obtain ⟨kept', shares', after⟩ := solvent.serves shares serves
  rw [add_comm] at after
  exact ⟨kept', shares', staff, begun, staffed, busy, after⟩

/-- Shutting down that goes on has closed the bus. -/
theorem isShut_of_closingStep? (h : s.closingStep? = some s') : s'.closing.isShut = true := by
  rw [Exchange.closingStep?] at h
  split at h
  · simp at h
  · split at h
    · obtain rfl := Option.some.inj h
      rfl
    · simp at h
  · split at h
    · obtain rfl := Option.some.inj h
      rfl
    · split at h
      · obtain rfl := Option.some.inj h
        rfl
      · split at h
        · obtain rfl := Option.some.inj h
          rfl
        · simp at h
  · obtain ⟨-, h⟩ := Option.ite_none_right_eq_some.mp h
    obtain rfl := Option.some.inj h
    rfl
  · simp at h

/-- After every step that does not close the bus, and in which nobody crashes, it goes on. -/
theorem Going.step (lawful : P.Lawful) {m : Move} (going : P.Going s kept total)
    (h : s.step? m = some s') (opened : s'.closing.isShut = false) (calm : s'.isCalm)
    (spares : s.sparesStreams s' = true) : P.Going s' kept total := by
  cases m with
  | dispatcher i => exact going.dispatcher h calm
  | task i => exact going.task h
  | retryTick i =>
    obtain ⟨ticks, -, rfl⟩ := Option.map_eq_some_iff.mp h
    exact going.pass rfl rfl fun owed solvent => solvent.takeDue _
  | requeue =>
    obtain ⟨bus, step, rfl⟩ := Option.map_eq_some_iff.mp h
    exact going.pass rfl rfl fun owed solvent =>
      solvent.requeue lawful (Bus.requeues_of_requeue? step)
  | sweepTick i =>
    obtain ⟨ticks, -, rfl⟩ := Option.map_eq_some_iff.mp h
    refine going.pass rfl rfl fun owed solvent => solvent.sweep fun id c known listed old => ?_
    exact Exchange.served_of_sparesStreams spares opened rfl known listed old
  | expire =>
    obtain ⟨bus, step, rfl⟩ := Option.map_eq_some_iff.mp h
    rw [Bus.expire?] at step
    split at step
    · simp at step
    · obtain rfl := Option.some.inj step
      exact going.pass rfl rfl fun owed solvent => solvent.shuffle rfl rfl rfl rfl
        fun r hr => ⟨r, hr, rfl, rfl⟩
  | closing =>
    have shut := isShut_of_closingStep? h
    simp [opened] at shut
  | wait ms | interrupt =>
    obtain rfl := Option.some.inj h
    exact going.pass rfl rfl fun owed solvent => solvent.pass rfl rfl fun _ office => office

/-! ## Rest -/

/-- An exchange on which nothing is to be done any more when everything has been handed over. -/
structure Rested (P : Plant σ) (s : Exchange σ) (total : Multiset (String × Json)) : Prop where
  posts : ∀ d ∈ s.dispatchers, d.post.isFree = true
  empty : ∀ m ∈ s.bus.mailboxes, m.2.items = []
  tasks : s.floor.tasks = []
  paid : ↑(P.handed s.floor.world) = total

/-- When nothing is in flight and nothing is kept, everything has been handed over. -/
theorem Going.rested (going : P.Going s 0 total) (waiting : s.bus.waiting = [])
    (handled : s.handled = []) (tasks : s.floor.tasks = []) : P.Rested s total := by
  obtain ⟨staff, begun, staffed, busy, mail, goods, office, backs, sum⟩ := going
  have empty : ∀ m ∈ s.bus.mailboxes, m.2.items = [] := by
    intro m hm
    have none := List.flatMap_eq_nil_iff.mp waiting m hm
    exact List.map_eq_nil_iff.mp none
  have idle : ∀ d ∈ s.dispatchers, ∀ share, P.Staffed d share → d.post = .idle ∧ share = 0 := by
    intro d hd share has
    have none := List.flatMap_eq_nil_iff.mp handled d hd
    have owes := has.owes
    rw [Dispatcher.inHand] at none
    cases post : d.post with
    | idle =>
      rw [post] at owes
      exact ⟨rfl, owes⟩
    | handling x a => simp [post] at none
    | _ =>
      rw [post] at owes
      exact owes.elim
  have nobody : staff = 0 := staffed.nothing fun d hd share has => (idle d hd share has).2
  have nothing : begun = 0 := by
    rw [tasks] at busy
    exact busy.of_nil
  have unsent : mail = 0 := by
    refine office.stocked.nothing fun m hm share has => ?_
    have shares := has.2.2
    rw [empty m hm] at shares
    exact shares.of_nil
  rw [nobody, nothing, unsent, zero_add, zero_add, zero_add] at backs
  refine ⟨fun d hd => ?_, empty, tasks, ?_⟩
  · obtain ⟨share, has⟩ := staffed.has hd
    rw [(idle d hd share has).1]
    rfl
  · rw [← sum, backs.of_nothing, add_zero]

theorem Rested.take? (rested : P.Rested s total) (name : String) : s.floor.bus.take? name = none := by
  rw [Bus.take?]
  cases known : s.floor.bus.mailbox? name with
  | none => rfl
  | some m =>
    obtain ⟨before, after, split, -⟩ := List.lookup_eq_some_iff.mp known
    have here : (name, m) ∈ s.bus.mailboxes := by
      rw [Exchange.bus, split]
      simp
    have none : m.items = [] := rested.empty _ here
    simp [none]

theorem Rested.dispatcher {i : Nat} (rested : P.Rested s total)
    (h : s.dispatcherStep? i = some s') : P.Rested s' total := by
  obtain ⟨d, found, h⟩ := Option.bind_eq_some_iff.mp h
  obtain ⟨⟨d', f'⟩, step, rfl⟩ := Option.map_eq_some_iff.mp h
  obtain ⟨-, after⟩ := set_perm found
  have free := rested.posts d (List.mem_of_getElem? found)
  rw [Dispatcher.step?] at step
  cases post : d.post with
  | idle =>
    simp only [post, rested.take?] at step
    split at step
    · obtain ⟨rfl, rfl⟩ := Prod.mk.inj (Option.some.inj step)
      refine ⟨fun x hx => ?_, fun m hm => ?_, rested.tasks, rested.paid⟩
      · rcases List.mem_or_eq_of_mem_set hx with hx | rfl
        · exact rested.posts x hx
        · rfl
      · obtain ⟨old, hold, rfl⟩ := List.mem_map.mp hm
        split
        · rfl
        · exact rested.empty old hold
    · simp at step
  | _ => simp_all [Post.isFree]

theorem Rested.closing (rested : P.Rested s total) (h : s.closingStep? = some s') :
    P.Rested s' total := by
  obtain ⟨posts, empty, tasks, paid⟩ := rested
  rw [Exchange.closingStep?] at h
  split at h
  · simp at h
  · split at h
    · obtain rfl := Option.some.inj h
      refine ⟨posts, fun m hm => ?_, tasks, paid⟩
      obtain ⟨old, hold, rfl⟩ := List.mem_map.mp hm
      exact empty old hold
    · simp at h
  · split at h
    · obtain rfl := Option.some.inj h
      exact ⟨posts, empty, tasks, paid⟩
    · split at h
      · obtain rfl := Option.some.inj h
        exact ⟨posts, empty, tasks, paid⟩
      · split at h
        · obtain rfl := Option.some.inj h
          refine ⟨fun x hx => ?_, empty, tasks, paid⟩
          rcases List.mem_or_eq_of_mem_set hx with hx | rfl
          · exact posts x hx
          · rfl
        · simp at h
  · obtain ⟨-, h⟩ := Option.ite_none_right_eq_some.mp h
    obtain rfl := Option.some.inj h
    exact ⟨posts, empty, rfl, paid⟩
  · simp at h

/-- Every step of a bus that is closed leaves it at rest. -/
theorem Rested.step {m : Move} {history : List Note} (rested : P.Rested s total)
    (ending : s.Ending history) (shut : s.closing.isShut = true) (h : s.step? m = some s') :
    P.Rested s' total := by
  have other : s.closing ≠ .running := by
    intro running
    rw [running] at shut
    exact absurd shut Bool.false_ne_true
  obtain ⟨retryTicks, sweepTicks⟩ := ending.halted other
  cases m with
  | dispatcher i => exact rested.dispatcher h
  | task i => simp [Exchange.step?, Exchange.taskStep?, rested.tasks] at h
  | retryTick i =>
    obtain ⟨ticks, ticked, -⟩ := Option.map_eq_some_iff.mp h
    exact absurd retryTicks (Exchange.ne_nil_of_tick? ticked)
  | sweepTick i =>
    obtain ⟨ticks, ticked, -⟩ := Option.map_eq_some_iff.mp h
    exact absurd sweepTicks (Exchange.ne_nil_of_tick? ticked)
  | requeue =>
    obtain ⟨bus, step, -⟩ := Option.map_eq_some_iff.mp h
    simp [Bus.requeue?, (ending.shut shut).1] at step
  | expire =>
    obtain ⟨bus, step, -⟩ := Option.map_eq_some_iff.mp h
    simp [Bus.expire?, (ending.shut shut).2.1] at step
  | closing => exact rested.closing h
  | wait ms | interrupt =>
    obtain rfl := Option.some.inj h
    exact ⟨rested.posts, rested.empty, rested.tasks, rested.paid⟩

end Plant

end Pipeworks
