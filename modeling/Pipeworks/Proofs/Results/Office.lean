import Pipeworks.Proofs.Bus.Books
import Pipeworks.Proofs.Results.Backing
import Pipeworks.Proofs.Results.Owing

/-!
# Solvent buses

On a bus that runs, every delivery in a mailbox has the dues that its event owes to the subscriber,
and what waits to be tried again will come to nothing. The bus is solvent for some dues that are
held elsewhere if its streams back these and the mail: what has been handed to the outputs and what
all dues are worth make a fixed total. Every step of a program that owes its dues, and of a
dispatcher whose work owes what it is sent, leaves the bus solvent for what is owed afterwards.
-/

namespace Pipeworks

variable {σ : Type} {P : Plant σ}

/-- The recipients that an emission has still to serve. -/
def Emission.pending (e : Emission) : List String := e.holding.toList ++ e.left

theorem Emission.pending_of_isDone {e : Emission} (done : e.isDone = true) : e.pending = [] := by
  simp only [isDone, Bool.and_eq_true, List.isEmpty_iff, Option.isNone_iff_eq_none] at done
  rw [pending, done.1, done.2]
  rfl

/-- Payloads that are handed over were part of the goods. -/
theorem Streams.Backs.handAll {s : Streams} {given : List (String × Json)} {dues : Multiset Due}
    {goods : Multiset (String × Json)} (backs : s.Backs (payloads given + dues) goods) :
    ∃ left, goods = ↑given + left ∧ s.Backs dues left := by
  induction given generalizing goods with
  | nil =>
    have nothing : payloads [] = 0 := rfl
    rw [nothing, zero_add] at backs
    exact ⟨goods, (zero_add _).symm, backs⟩
  | cons g given ih =>
    have first : payloads (g :: given) = .payload g.1 g.2 ::ₘ payloads given := rfl
    rw [first, Multiset.cons_add] at backs
    obtain ⟨rest, rfl, after⟩ := backs.hand
    obtain ⟨left, rfl, last⟩ := ih after
    exact ⟨left, (Multiset.cons_add ..).symm, last⟩

namespace Plant

/-- Whether a subscriber takes part. -/
def Member (P : Plant σ) (name : String) : Prop := name = P.processor ∨ name ∈ P.outputs

theorem Mail.member {e : Event} {name : String} {owed : Multiset Due} (mail : P.Mail e name owed) :
    P.Member name := by
  cases mail with
  | input => exact .inl rfl
  | announced here => exact .inr here

/-- A mailbox in use, and what is owed for the deliveries in it. -/
def Stocked (P : Plant σ) (m : String × Mailbox) (owed : Multiset Due) : Prop :=
  m.2.listed = true ∧ m.2.receiving = true ∧
    Shares (fun d : Delivery => P.Mail d.event m.1) m.2.items owed

/-- A bus that runs, and what is owed for the deliveries that wait in its mailboxes. -/
structure Office (P : Plant σ) (b : Bus) (mail : Multiset Due) : Prop where
  topics : b.topics = P.topics
  accepts : b.closed = false
  distinct : b.names.Nodup
  members : ∀ name, P.Member name → name ∈ b.names
  stocked : Shares P.Stocked b.mailboxes mail
  duds : ∀ r ∈ b.retries ++ b.requeuing, P.Dud r.subscriber r.event

namespace Office

variable {b b' : Bus} {mail : Multiset Due} {name : String}

/-- A change of the mailboxes, with the retries in order. -/
theorem keep {mail' : Multiset Due} (office : P.Office b mail) (topics : b'.topics = b.topics)
    (closed : b'.closed = b.closed) (roster : b'.roster = b.roster)
    (stocked : Shares P.Stocked b'.mailboxes mail')
    (duds : ∀ r ∈ b'.retries ++ b'.requeuing, P.Dud r.subscriber r.event) : P.Office b' mail' where
  topics := topics.trans office.topics
  accepts := closed.trans office.accepts
  distinct := by
    rw [Bus.names_eq, roster, ← Bus.names_eq]
    exact office.distinct
  members := by
    rw [Bus.names_eq, roster, ← Bus.names_eq]
    exact office.members
  stocked := stocked
  duds := duds

/-- The mailbox of one subscriber is taken out of the others. -/
theorem split {m : Mailbox} (office : P.Office b mail) (known : b.mailbox? name = some m) :
    ∃ share others, mail = share + others ∧ P.Stocked (name, m) share ∧
      ∀ f other, P.Stocked (name, f m) other →
        Shares P.Stocked (b.changeMailbox name f).mailboxes (other + others) := by
  obtain ⟨rest, before, after⟩ := Bus.mailboxes_perm office.distinct known
  obtain ⟨share, others, rfl, has, shares⟩ := (office.stocked.perm before).uncons
  exact ⟨share, others, rfl, has, fun f other stocked =>
    (Shares.cons stocked shares).perm (after f).symm⟩

/-- Whoever takes part has a mailbox that is in use. -/
theorem box (office : P.Office b mail) (member : P.Member name) :
    ∃ m, b.mailbox? name = some m ∧ m.listed = true ∧ m.receiving = true := by
  cases known : b.mailbox? name with
  | none => exact absurd (office.members name member) (Bus.notMem_names known)
  | some m =>
    obtain ⟨share, others, -, stocked, -⟩ := office.split known
    exact ⟨m, rfl, stocked.1, stocked.2.1⟩

/-- A change of a mailbox that leaves its deliveries alone. -/
theorem touch {f : Mailbox → Mailbox} (office : P.Office b mail) (member : P.Member name)
    (same : ∀ m, (f m).listed = m.listed ∧ (f m).receiving = m.receiving ∧ (f m).items = m.items) :
    Shares P.Stocked (b.changeMailbox name f).mailboxes mail := by
  obtain ⟨m, known, -⟩ := office.box member
  obtain ⟨share, others, rfl, stocked, next⟩ := office.split known
  refine next f share ?_
  obtain ⟨listed, receiving, items⟩ := same m
  rw [Stocked, listed, receiving, items]
  exact stocked

/-- A delivery comes into a mailbox with what is owed for it. -/
theorem put {f : Mailbox → Mailbox} {d : Delivery} {share : Multiset Due}
    (office : P.Office b mail) (owed : P.Mail d.event name share)
    (same : ∀ m, (f m).listed = m.listed ∧ (f m).receiving = m.receiving ∧
      (f m).items = m.items ++ [d]) :
    Shares P.Stocked (b.changeMailbox name f).mailboxes (mail + share) := by
  obtain ⟨m, known, -⟩ := office.box owed.member
  obtain ⟨before, others, rfl, stocked, next⟩ := office.split known
  rw [add_right_comm]
  refine next f (before + share) ?_
  obtain ⟨listed, receiving, items⟩ := same m
  rw [Stocked, listed, receiving, items]
  exact ⟨stocked.1, stocked.2.1, stocked.2.2.append (.one owed)⟩

/-- Whatever an emission does, what is owed for it and for the mail stays the same. -/
theorem serves {e e' : Emission} {ns : List Note} {sent : Multiset Due} (office : P.Office b mail)
    (shares : Shares (P.Mail e.event) e.pending sent) (serves : b.Serves e ns e' b') :
    ∃ mail' sent', P.Office b' mail' ∧ Shares (P.Mail e'.event) e'.pending sent' ∧
      mail' + sent' = mail + sent ∧ b'.streams = b.streams := by
  have member {name : String} {left : List String} (first : e.pending = name :: left) :
      P.Member name := by
    obtain ⟨share, owed⟩ := shares.has (first ▸ List.mem_cons_self ..)
    exact owed.member
  have holds {name : String} (holding : e.holding = some name) : e.pending = name :: e.left := by
    rw [Emission.pending, holding]
    rfl
  have free {name : String} {left : List String} (holding : e.holding = none)
      (next : e.left = name :: left) : e.pending = name :: left := by
    rw [Emission.pending, holding, next]
    rfl
  cases serves with
  | skipped name left holding next dead =>
    obtain ⟨m, known, listed, -⟩ := office.box (member (free holding next))
    rw [Bus.isLive, known] at dead
    exact absurd (listed.symm.trans dead) (by simp)
  | found name left holding next live =>
    have pending := free holding next
    have boxes := office.touch (f := fun m => { m with senders := m.senders + 1 })
      (member pending) fun _ => ⟨rfl, rfl, rfl⟩
    have roster := b.roster_changeMailbox name (f := fun m => { m with senders := m.senders + 1 })
      fun _ => rfl
    rw [pending] at shares
    exact ⟨mail, sent, office.keep rfl rfl roster boxes office.duds, shares, rfl, rfl⟩
  | missed name holding missing =>
    obtain ⟨m, known, -⟩ := office.box (member (holds holding))
    exact absurd (missing.symm.trans known) (by simp)
  | refused name m holding known deserted =>
    obtain ⟨m', known', -, receiving⟩ := office.box (member (holds holding))
    obtain rfl := Option.some.inj (known.symm.trans known')
    simp [deserted] at receiving
  | put name m holding known receiving room =>
    rw [holds holding] at shares
    obtain ⟨share, rest, rfl, owed, others⟩ := shares.uncons
    refine ⟨mail + share, rest, office.keep rfl rfl (Bus.roster_changeMailbox _ _ fun _ => rfl)
      ?_ office.duds, others, add_assoc .., rfl⟩
    exact office.put (d := ⟨e.serial, e.event, 1, none⟩) owed fun _ => ⟨rfl, rfl, rfl⟩

/-- A delivery leaves a mailbox with what is owed for it. -/
theorem take {d : Delivery} (office : P.Office b mail) (taken : b.take? name = some (d, b')) :
    ∃ share others, mail = share + others ∧ P.Mail d.event name share ∧ P.Office b' others ∧
      b'.streams = b.streams := by
  obtain ⟨m, rest, known, here, rfl⟩ := Bus.take?_eq_some taken
  obtain ⟨before, others, rfl, ⟨listed, receiving, items⟩, next⟩ := office.split known
  rw [here] at items
  obtain ⟨share, left, rfl, owed, shares⟩ := items.uncons
  refine ⟨share, left + others, add_assoc .., owed, ?_, rfl⟩
  refine office.keep rfl rfl (Bus.roster_changeMailbox _ _ fun _ => rfl) ?_ office.duds
  refine next _ left ⟨listed, receiving, ?_⟩
  rw [here]
  exact shares

/-- A delivery that fails comes to nothing, so it may be tried again. -/
theorem fail {d : Delivery} {now : Nat} {fault : Fault} (office : P.Office b mail)
    (dud : P.Dud name d.event) : P.Office (b.fail now name d fault) mail := by
  rw [Bus.fail, Policy.afterFailure]
  split
  · rename_i r after
    split at after
    · simp at after
    · obtain rfl := Aftermath.retry.inj after
      refine office.keep rfl rfl rfl office.stocked fun r hr => ?_
      rcases List.mem_append.mp hr with hr | hr
      · rcases List.mem_append.mp hr with hr | hr
        · exact office.duds r (List.mem_append_left _ hr)
        · obtain rfl := List.mem_singleton.mp hr
          exact dud
      · exact office.duds r (List.mem_append_right _ hr)
  · exact office.keep rfl rfl rfl office.stocked office.duds

end Office

/-- A bus whose streams back the mail and the dues that are held elsewhere: with what has been
handed over they make the total. -/
def Solvent (P : Plant σ) (f : Floor σ) (owed : Multiset Due) (total : Multiset (String × Json)) :
    Prop :=
  ∃ mail goods, P.Office f.bus mail ∧ f.bus.streams.Backs (mail + owed) goods ∧
    ↑(P.handed f.world) + goods = total

end Plant

/-! ## Programs -/

/-- A program that makes use of each of some dues exactly once and then ends in some way. -/
def Activity.Owes (P : Plant σ) (ends : Outcome Unit → Prop) : Activity σ → Multiset Due → Prop
  | .running w, owed | .asleep _ w, owed => w.Owes P ends owed
  | .emitting e next, owed => ∃ sent rest, owed = sent + rest ∧
      Shares (P.Mail e.event) e.pending sent ∧ ∀ n, (next (.ok n)).Owes P ends rest
  | .writing chunk next, owed => ∃ pieces rest,
      owed = .writing chunk.stream (chunk.piece :: pieces) ::ₘ rest ∧
      (next (.ok ())).Owes P ends (.writing chunk.stream pieces ::ₘ rest)

/-- What a program comes to that owes some dues: at its end it owes none. -/
def Stride.Owes (P : Plant σ) (ends : Outcome Unit → Prop) : Stride σ → Multiset Due → Prop
  | .on a, owed => a.Owes P ends owed
  | .ended o, owed => ends o ∧ owed = 0

namespace Plant

/-- Tracked work that owes some dues, however it ends. -/
def Busy (P : Plant σ) (a : Activity σ) (owed : Multiset Due) : Prop :=
  a.Owes P (fun _ => True) owed

/-- What a step of a program leaves: the program and the work that it has begun owe some dues, for
which the bus is solvent, beside those that are held elsewhere. -/
def Carries (P : Plant σ) (ends : Outcome Unit → Prop) (f : Floor σ) (rest : Multiset Due)
    (total : Multiset (String × Json)) (stride : Stride σ) (f' : Floor σ) : Prop :=
  ∃ owed begun new, stride.Owes P ends owed ∧ f'.tasks = f.tasks ++ new ∧
    Shares P.Busy new begun ∧ P.Solvent f' (owed + begun + rest) total

variable {ends : Outcome Unit → Prop} {f f' : Floor σ} {owed rest : Multiset Due}
  {total : Multiset (String × Json)} {stride : Stride σ}

theorem carries_quiet (owes : stride.Owes P ends owed) (tasks : f'.tasks = f.tasks)
    (solvent : P.Solvent f' (owed + rest) total) : P.Carries ends f rest total stride f' := by
  refine ⟨owed, 0, [], owes, ?_, .nil, ?_⟩
  · rw [tasks, List.append_nil]
  · rw [add_zero]
    exact solvent

/-- A step on the streams leaves the bus solvent for the dues that they back afterwards. -/
theorem Office.solvent {mail : Multiset Due} {goods : Multiset (String × Json)} {streams : Streams}
    (office : P.Office f.bus mail) (sum : ↑(P.handed f.world) + goods = total)
    (backs : streams.Backs (mail + owed) goods) :
    P.Solvent { f with bus := { f.bus with streams } } owed total :=
  ⟨mail, goods, office.keep rfl rfl rfl office.stocked office.duds, backs, sum⟩

/-- Payloads are handed over. -/
theorem Solvent.hand {given : List (String × Json)} {world : σ}
    (solvent : P.Solvent f (payloads given + rest) total)
    (hands : P.handed world = P.handed f.world ++ given) :
    P.Solvent { f with world } rest total := by
  obtain ⟨mail, goods, office, backs, sum⟩ := solvent
  rw [add_left_comm] at backs
  obtain ⟨left, rfl, after⟩ := backs.handAll
  refine ⟨mail, left, office, after, ?_⟩
  rw [← sum, hands, ← Multiset.coe_add, add_assoc]

/-- An event is accepted for its recipients. -/
theorem Solvent.accept (solvent : P.Solvent f owed total) (e : Event) :
    ∃ emission bus, f.bus.accept e = .ok (emission, bus) ∧ emission.event = e ∧
      emission.pending = P.recipients e ∧ P.Solvent { f with bus } owed total := by
  obtain ⟨mail, goods, office, backs, sum⟩ := solvent
  have ok : f.bus.accept e = .ok (⟨f.bus.stats.emitted, e,
      (f.bus.subscribersOf e.topic).filter e.isFor, none, 0⟩,
      { f.bus with stats := { f.bus.stats with emitted := f.bus.stats.emitted + 1 } }) := by
    rw [Bus.accept, if_neg (by simp [office.accepts])]
  refine ⟨_, _, ok, rfl, ?_, mail, goods, ?_, backs, sum⟩
  · rw [recipients, ← office.topics]
    rfl
  · exact office.keep rfl rfl rfl office.stocked office.duds

/-- An emission serves a recipient. -/
theorem Solvent.serves {e e' : Emission} {ns : List Note} {bus : Bus} {sent : Multiset Due}
    (solvent : P.Solvent f (sent + rest) total)
    (shares : Shares (P.Mail e.event) e.pending sent) (serves : f.bus.Serves e ns e' bus) :
    ∃ sent', Shares (P.Mail e'.event) e'.pending sent' ∧
      P.Solvent { f with bus } (sent' + rest) total := by
  obtain ⟨mail, goods, office, backs, sum⟩ := solvent
  obtain ⟨mail', sent', office', shares', same, streams⟩ := office.serves shares serves
  refine ⟨sent', shares', mail', goods, office', ?_, sum⟩
  rw [← add_assoc] at backs ⊢
  rw [same, streams]
  exact backs

/-- A delivery is taken out of the mail with what is owed for it. -/
theorem Solvent.take {name : String} {x : Delivery} {bus : Bus} (solvent : P.Solvent f rest total)
    (taken : f.bus.take? name = some (x, bus)) :
    ∃ share, P.Mail x.event name share ∧ P.Solvent { f with bus } (share + rest) total := by
  obtain ⟨mail, goods, office, backs, sum⟩ := solvent
  obtain ⟨share, others, rfl, due, after, streams⟩ := office.take taken
  refine ⟨share, due, others, goods, after, ?_, sum⟩
  rw [add_left_comm, ← add_assoc, streams]
  exact backs

/-- A reader that has come to the end leaves its stream. -/
theorem Office.carries_end {mail : Multiset Due} {goods : Multiset (String × Json)}
    {streams : Streams} {id : String} {output : Output σ} {collected : List Json} {r : ReadResult}
    (office : P.Office f.bus mail) (sum : ↑(P.handed f.world) + goods = total)
    (any : ∀ o, ends o) (read : f.bus.streams.read id = (r, streams))
    (past : r = .ended ∨ r = .truncated id)
    (backs : streams.Backs (.leaving id ::ₘ (mail + rest)) goods)
    (h : Activity.workStep? f (.drain id output collected) = some (stride, f')) :
    P.Carries ends f rest total stride f' := by
  have leaves : (Work.dropReader id .done : Work σ).Owes P ends {.leaving id} :=
    .dropReader (.finish (any _))
  have goes : P.Solvent { f with bus := { f.bus with streams } } ({.leaving id} + rest) total := by
    refine office.solvent sum ?_
    rw [Multiset.singleton_add, Multiset.add_cons]
    exact backs
  rcases past with rfl | rfl
  · simp only [Activity.workStep?, read] at h
    obtain ⟨rfl, rfl⟩ := Prod.mk.inj (Option.some.inj h)
    exact carries_quiet leaves rfl goes
  · simp only [Activity.workStep?, read] at h
    obtain ⟨rfl, rfl⟩ := Prod.mk.inj (Option.some.inj h)
    exact carries_quiet leaves rfl goes

/-- A reader takes the next chunk, or comes to the end. -/
theorem Solvent.drain {name id : String} {output : Output σ} {collected : List Json}
    (solvent : P.Solvent f (.reading name id collected ::ₘ rest) total)
    (takes : P.Takes name output) (any : ∀ o, ends o)
    (h : Activity.workStep? f (.drain id output collected) = some (stride, f')) :
    P.Carries ends f rest total stride f' := by
  obtain ⟨mail, goods, office, backs, sum⟩ := solvent
  rw [Multiset.add_cons] at backs
  rcases backs.read with ⟨_, waits⟩ | ⟨chunk, streams, got, final, plain⟩ |
    ⟨r, streams, got, past, after⟩
  · simp [Activity.workStep?, waits] at h
  · simp only [Activity.workStep?, got] at h
    obtain ⟨rfl, rfl⟩ := Prod.mk.inj (Option.some.inj h)
    cases last : chunk.isFinal with
    | true =>
      refine carries_quiet ((Work.owes_drainChunk takes any).1 last) rfl (office.solvent sum ?_)
      rw [Multiset.cons_add, Multiset.singleton_add, Multiset.add_cons, Multiset.add_cons]
      exact final last
    | false =>
      refine carries_quiet ((Work.owes_drainChunk takes any).2 last) rfl (office.solvent sum ?_)
      rw [Multiset.singleton_add, Multiset.add_cons]
      exact plain last
  · exact office.carries_end sum any got past after h

/-- A reader that has handed over its payload comes to the end. -/
theorem Solvent.drainOut {id : String} {output : Output σ} {collected : List Json}
    (solvent : P.Solvent f (.leaving id ::ₘ rest) total) (any : ∀ o, ends o)
    (h : Activity.workStep? f (.drain id output collected) = some (stride, f')) :
    P.Carries ends f rest total stride f' := by
  obtain ⟨mail, goods, office, backs, sum⟩ := solvent
  rw [Multiset.add_cons] at backs
  rcases backs.readOut with ⟨_, waits⟩ | ⟨r, streams, got, past, after⟩
  · simp [Activity.workStep?, waits] at h
  · exact office.carries_end sum any got past after h

/-- Every step of work that owes some dues carries on, unless it panics and is not to. -/
theorem carries_workStep? {w : Work σ} (owes : w.Owes P ends owed)
    (solvent : P.Solvent f (owed + rest) total) (h : Activity.workStep? f w = some (stride, f'))
    (allowed : ∀ text, stride = .ended (.panicked text) → ends (.panicked text)) :
    P.Carries ends f rest total stride f' := by
  cases owes with
  | finish fits =>
    obtain ⟨rfl, rfl⟩ := Prod.mk.inj (Option.some.inj h)
    exact carries_quiet ⟨fits, rfl⟩ rfl solvent
  | act hands next =>
    obtain ⟨rfl, rfl⟩ := Prod.mk.inj (Option.some.inj h)
    rw [add_assoc] at solvent
    exact carries_quiet (next f.world) rfl (solvent.hand (hands f.world))
  | pause next =>
    obtain ⟨rfl, rfl⟩ := Prod.mk.inj (Option.some.inj h)
    exact carries_quiet next rfl solvent
  | interrupt next =>
    obtain ⟨rfl, rfl⟩ := Prod.mk.inj (Option.some.inj h)
    exact carries_quiet next rfl solvent
  | @emit _ e _ sent left mail next =>
    obtain ⟨emission, bus, ok, event, pending, after⟩ := solvent.accept e
    simp only [Activity.workStep?, ok] at h
    obtain ⟨rfl, rfl⟩ := Prod.mk.inj (Option.some.inj h)
    refine carries_quiet ⟨sent, left, rfl, ?_, next⟩ rfl after
    rw [event, pending]
    exact mail
  | openStream strict goes =>
    obtain ⟨mail, goods, office, backs, sum⟩ := solvent
    rw [Multiset.cons_add, Multiset.add_cons] at backs
    have started := Streams.start.eq_def f.bus.streams f.bus.policy.streamCapacity f.clock
    rw [reserve] at started
    split at started
    · simp only [Activity.workStep?, started, Outcome.map] at h
      obtain ⟨rfl, rfl⟩ := Prod.mk.inj (Option.some.inj h)
      refine carries_quiet (goes _) rfl (office.solvent sum ?_)
      rw [Multiset.cons_add, Multiset.cons_add, Multiset.add_cons, Multiset.add_cons]
      exact backs.start started
    · simp only [Activity.workStep?, started, Outcome.map] at h
      obtain ⟨rfl, rfl⟩ := Prod.mk.inj (Option.some.inj h)
      exact absurd (allowed _ rfl) (strict _)
  | write next =>
    obtain ⟨mail, goods, office, backs, sum⟩ := solvent
    rw [Multiset.cons_add, Multiset.add_cons] at backs
    obtain ⟨chunk, streams, ok, rfl, piece, after⟩ := backs.number
    simp only [Activity.workStep?, ok] at h
    obtain ⟨rfl, rfl⟩ := Prod.mk.inj (Option.some.inj h)
    refine carries_quiet ⟨_, _, rfl, next⟩ rfl (office.solvent sum ?_)
    rw [Multiset.cons_add, Multiset.add_cons, piece]
    exact after
  | dropWriter next =>
    obtain ⟨mail, goods, office, backs, sum⟩ := solvent
    rw [Multiset.cons_add, Multiset.add_cons] at backs
    obtain ⟨rfl, rfl⟩ := Prod.mk.inj (Option.some.inj h)
    exact carries_quiet next rfl (office.solvent sum backs.dropWriter)
  | claim next =>
    obtain ⟨mail, goods, office, backs, sum⟩ := solvent
    rw [Multiset.cons_add, Multiset.add_cons] at backs
    obtain ⟨streams, ok, after⟩ := backs.claim
    simp only [Activity.workStep?, ok] at h
    obtain ⟨rfl, rfl⟩ := Prod.mk.inj (Option.some.inj h)
    refine carries_quiet next rfl (office.solvent sum ?_)
    rw [Multiset.cons_add, Multiset.add_cons]
    exact after
  | dropReader next =>
    obtain ⟨mail, goods, office, backs, sum⟩ := solvent
    rw [Multiset.cons_add, Multiset.add_cons] at backs
    obtain ⟨rfl, rfl⟩ := Prod.mk.inj (Option.some.inj h)
    exact carries_quiet next rfl (office.solvent sum backs.dropReader)
  | @spawn _ task w begun left begins next =>
    obtain ⟨rfl, rfl⟩ := Prod.mk.inj (Option.some.inj h)
    obtain ⟨mail, goods, office, backs, sum⟩ := solvent
    refine ⟨_, _, _, next, rfl, .one begins, mail, goods, ?_, ?_, sum⟩
    · exact office.keep rfl rfl rfl office.stocked office.duds
    · rw [add_comm begun left] at backs
      exact backs
  | drain takes any =>
    rw [Multiset.singleton_add] at solvent
    exact solvent.drain takes any h
  | drainOut any =>
    rw [Multiset.singleton_add] at solvent
    exact solvent.drainOut any h

/-- Every step of a program that owes some dues carries on. -/
theorem carries_step? {a : Activity σ} (owes : a.Owes P ends owed)
    (solvent : P.Solvent f (owed + rest) total) (h : a.step? f = some (stride, f'))
    (allowed : ∀ text, stride = .ended (.panicked text) → ends (.panicked text)) :
    P.Carries ends f rest total stride f' := by
  cases a with
  | running w => exact carries_workStep? owes solvent h allowed
  | asleep wakes w =>
    simp only [Activity.step?] at h
    split at h
    · obtain ⟨rfl, rfl⟩ := Prod.mk.inj (Option.some.inj h)
      exact carries_quiet owes rfl solvent
    · simp at h
  | emitting e next =>
    obtain ⟨sent, left, rfl, shares, goes⟩ := owes
    simp only [Activity.step?] at h
    split at h
    · rename_i done
      obtain ⟨rfl, rfl⟩ := Prod.mk.inj (Option.some.inj h)
      rw [Emission.pending_of_isDone done] at shares
      rw [shares.of_nil, zero_add] at solvent
      exact carries_quiet (goes _) rfl solvent
    · obtain ⟨⟨e', bus⟩, served, h⟩ := Option.map_eq_some_iff.mp h
      obtain ⟨rfl, rfl⟩ := Prod.mk.inj h
      have serves := Bus.serves_of_emitStep? served
      rw [add_assoc] at solvent
      obtain ⟨sent', shares', after⟩ := solvent.serves shares serves
      refine carries_quiet ⟨sent', left, rfl, shares', goes⟩ rfl ?_
      rw [add_assoc]
      exact after
  | writing chunk next =>
    obtain ⟨pieces, left, rfl, goes⟩ := owes
    obtain ⟨mail, goods, office, backs, sum⟩ := solvent
    rw [Multiset.cons_add, Multiset.add_cons] at backs
    rcases backs.send with ⟨_, full⟩ | ⟨streams, sent, after⟩
    · simp [Activity.step?, full] at h
    · simp only [Activity.step?, sent] at h
      obtain ⟨rfl, rfl⟩ := Prod.mk.inj (Option.some.inj h)
      refine carries_quiet goes rfl (office.solvent sum ?_)
      rw [Multiset.cons_add, Multiset.add_cons]
      exact after

end Plant

end Pipeworks
