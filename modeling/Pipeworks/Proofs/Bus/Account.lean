import Pipeworks.Proofs.Bus.Books

/-!
# The account of an exchange

Every step of an exchange keeps the books, and so does everything else that may
happen to a bus. `Audit.Sound` is what therefore holds after any schedule: the
history accounts for every delivery in its spot, for the counters, and for the
dead letters that are kept.
-/

namespace Pipeworks

variable {σ : Type}

theorem letters_append (h ns : List Note) : letters (h ++ ns) = letters h ++ letters ns :=
  List.filterMap_append

theorem set_perm {α : Type} {l : List α} {i : Nat} {a : α} (found : l[i]? = some a) :
    l.Perm (a :: l.eraseIdx i) ∧ ∀ a', (l.set i a').Perm (a' :: l.eraseIdx i) := by
  obtain ⟨inside, rfl⟩ := List.getElem?_eq_some_iff.mp found
  constructor
  · exact (List.getElem_cons_eraseIdx_perm inside).symm
  · exact List.set_perm_cons_eraseIdx inside

theorem flatMap_set_perm {α β : Type} {l : List α} {i : Nat} {a : α} (found : l[i]? = some a)
    (g : α → List β) :
    (l.flatMap g).Perm (g a ++ (l.eraseIdx i).flatMap g) ∧
      ∀ a', ((l.set i a').flatMap g).Perm (g a' ++ (l.eraseIdx i).flatMap g) := by
  obtain ⟨before, after⟩ := set_perm found
  constructor
  · exact before.flatMap_right g
  · intro a'
    exact (after a').flatMap_right g

/-! ## Steps -/

namespace Bus.Books

variable {b b' b'' : Bus} {x y z : List (Parcel × Spot)} {ns ms : List Note}

theorem names (books : Books x b ns y b') : b'.names = b.names := by
  rw [names_eq, names_eq, books.roster]

theorem trans (first : Books x b ns y b') (second : Books y b' ms z b'') :
    Books x b (ns ++ ms) z b'' where
  posts := first.posts.trans (first.policy ▸ second.posts)
  stats := by rw [second.stats, first.stats, List.foldl_append]
  letters := by
    rw [second.letters, first.letters, first.policy, letters_append, List.foldl_append]
  policy := second.policy.trans first.policy
  roster := second.roster.trans first.roster
  topics := second.topics.trans first.topics

end Bus.Books

/-- A program that ends leaves the bus as it is. -/
theorem Activity.Steps.ended {f f' : Floor σ} {a : Activity σ} {ns : List Note} {o : Outcome Unit}
    (steps : Activity.Steps f a ns (.ended o) f') : f.bus.Same f'.bus := by
  cases steps with
  | quiet same => exact same

theorem Activity.Steps.books {f f' : Floor σ} {a : Activity σ} {ns : List Note}
    {stride : Stride σ} (steps : Activity.Steps f a ns stride f') (distinct : f.bus.names.Nodup)
    (x : List (Parcel × Spot)) : Bus.Books x f.bus ns x f'.bus := by
  cases steps with
  | quiet same => exact same.books x
  | accepted ok => exact Bus.books_accept ok x
  | answered => exact Bus.books_answered _ x
  | served step => exact step.books distinct x

theorem Dispatcher.Steps.books {f f' : Floor σ} {d d' : Dispatcher σ} {ns : List Note}
    (steps : d.Steps f ns d' f') (distinct : f.bus.names.Nodup) :
    Bus.Books d.inHand f.bus ns d'.inHand f'.bus := by
  cases steps with
  | took idle taken =>
    simp only [inHand, idle]
    exact Bus.books_take taken distinct
  | retired idle empty =>
    simp only [inHand, idle]
    exact Bus.books_retire empty distinct
  | worked post step =>
    simp only [inHand, post]
    exact step.books distinct _
  | succeeded post step =>
    simp only [inHand, post]
    exact (step.ended.books _).trans (Bus.books_succeed ..)
  | failed post step =>
    simp only [inHand, post]
    exact (step.ended.books _).trans (Bus.books_fail ..)
  | crashed post step =>
    simp only [inHand, post]
    have same := step.ended.books []
    exact (step.ended.books _).trans (Bus.books_crash _ _ (same.names ▸ distinct))

/-- A step of an exchange posts its notes. -/
structure Exchange.Books (s : Exchange σ) (ns : List Note) (s' : Exchange σ) : Prop where
  posts : Posts s.bus.policy s.placed ns s'.placed
  stats : s'.bus.stats = ns.foldl Stats.note s.bus.stats
  letters : s'.bus.deadLetters = (letters ns).foldl (Bus.keep s.bus.policy) s.bus.deadLetters
  policy : s'.bus.policy = s.bus.policy
  names : s'.bus.names = s.bus.names
  topics : s'.bus.topics = s.bus.topics
  roster : s'.isRunning → s.isRunning ∧ s'.bus.roster = s.bus.roster

namespace Exchange

variable {s s' : Exchange σ} {ns : List Note}

theorem books_bus (books : Bus.Books [] s.bus ns [] s'.bus)
    (dispatchers : s'.dispatchers = s.dispatchers) (closing : s'.closing = s.closing) :
    s.Books ns s' where
  posts := by
    have handled : s'.handled = s.handled := by rw [Exchange.handled, dispatchers, Exchange.handled]
    rw [placed, placed, handled]
    exact ((books.posts.frame s.handled).perm_left List.perm_append_comm).perm_right
      List.perm_append_comm
  stats := books.stats
  letters := books.letters
  policy := books.policy
  names := books.names
  topics := books.topics
  roster running := by
    rw [isRunning, closing] at running
    exact ⟨running, books.roster⟩

/-- A step of shutting down that leaves the bus and the deliveries alone. -/
theorem books_closing (same : s.bus.Same s'.bus) (dispatchers : s'.dispatchers = s.dispatchers)
    (closing : s'.isRunning = false) : s.Books [] s' where
  posts := by
    have handled : s'.handled = s.handled := by rw [Exchange.handled, dispatchers, Exchange.handled]
    rw [placed, placed, same.placed, handled]
    exact .none (.refl _)
  stats := same.stats
  letters := same.deadLetters
  policy := same.policy
  names := congrArg (List.map Prod.fst) same.mailboxes
  topics := same.topics
  roster running := by simp [closing] at running

theorem books_dispatcher {i : Nat} {d d' : Dispatcher σ} (found : s.dispatchers[i]? = some d)
    (books : Bus.Books d.inHand s.bus ns d'.inHand s'.bus)
    (dispatchers : s'.dispatchers = s.dispatchers.set i d') (closing : s'.closing = s.closing) :
    s.Books ns s' where
  posts := by
    obtain ⟨before, after⟩ := flatMap_set_perm found Dispatcher.inHand
    have after := after d'
    rw [← dispatchers] at after
    have swap (x y z : List (Parcel × Spot)) : (x ++ y ++ z).Perm (x ++ z ++ y) := by
      rw [List.append_assoc, List.append_assoc]
      exact List.perm_append_comm.append_left x
    have framed := books.posts.frame ((s.dispatchers.eraseIdx i).flatMap Dispatcher.inHand)
    exact (framed.perm_left ((before.append_right s.bus.placed).trans (swap ..))).perm_right
      ((swap ..).trans (after.symm.append_right s'.bus.placed))
  stats := books.stats
  letters := books.letters
  policy := books.policy
  names := books.names
  topics := books.topics
  roster running := by
    rw [isRunning, closing] at running
    exact ⟨running, books.roster⟩

/-- Aborting a dispatcher loses the delivery that it handles. -/
theorem books_abort {d : Dispatcher σ} (deadline next aborted : Nat)
    (found : s.dispatchers[next]? = some d) :
    s.Books d.abortNotes { s with
      dispatchers := s.dispatchers.set next { d with post := .aborted }
      closing := .joining deadline (next + 1) (aborted + 1) } := by
  have books : Bus.Books d.inHand s.bus d.abortNotes
      (Dispatcher.inHand { d with post := .aborted }) s.bus := by
    change Bus.Books d.inHand s.bus d.abortNotes [] s.bus
    rw [Dispatcher.inHand, Dispatcher.abortNotes]
    cases d.post with
    | handling x a => exact ⟨.one trivial (.refl _) (.refl _), rfl, rfl, rfl, rfl, rfl⟩
    | _ => exact Bus.books_quiet (.refl _) rfl rfl rfl rfl rfl
  have same : s.Books d.abortNotes
      { s with dispatchers := s.dispatchers.set next { d with post := .aborted } } :=
    books_dispatcher found books rfl rfl
  exact ⟨same.posts, same.stats, same.letters, same.policy, same.names, same.topics,
    fun running => absurd running Bool.false_ne_true⟩

/-- The retries that are discarded have not ended otherwise. -/
theorem books_truncate (s : Exchange σ) (deadline aborted : Nat) :
    s.Books (s.bus.retries.map .discarded) (s.truncate deadline aborted) where
  posts := by
    refine .removals ?_ ?_
    · intro n hn
      obtain ⟨r, -, rfl⟩ := List.mem_map.mp hn
      exact ⟨trivial, rfl⟩
    · have copies : s.bus.retries.filterMap (Note.departure ∘ Note.discarded) =
          s.bus.retries.map Retry.copy := by
        rw [← List.filterMap_eq_map]
        rfl
      have handled : (s.truncate deadline aborted).handled = s.handled := rfl
      have placed : (s.truncate deadline aborted).bus.placed =
          s.bus.waiting ++ (s.bus.requeuing.map Retry.copy ++ s.bus.expiring.map DeadLetter.copy) :=
        rfl
      rw [List.filterMap_map, copies, Exchange.placed, Exchange.placed, handled, placed]
      rw [List.perm_iff_count]
      intro k
      simp only [Bus.placed, Bus.pending, List.count_append]
      omega
  stats := by
    have counts : ∀ (rs : List Retry) (st : Stats),
        (rs.map Note.discarded).foldl Stats.note st = st := by
      intro rs st
      induction rs with
      | nil => rfl
      | cons r rs ih => exact ih
    exact (counts _ _).symm
  letters := by
    have none : letters (s.bus.retries.map .discarded) = [] :=
      filterMap_discarded (fun _ => rfl) s.bus.retries
    rw [none]
    rfl
  policy := rfl
  names := rfl
  topics := rfl
  roster := by simp [truncate, isRunning]

/-- Starting adds dispatchers that handle nothing. -/
theorem flatMap_start {α : Type} {g : Dispatcher σ → List α}
    (idle : ∀ name deliver, g ⟨name, deliver, .idle⟩ = []) :
    s.start.dispatchers.flatMap g = s.dispatchers.flatMap g := by
  have new : (s.unstarted.map fun x => (⟨x.1, x.2, .idle⟩ : Dispatcher σ)).flatMap g = [] := by
    rw [List.flatMap_map, List.flatMap_eq_nil_iff]
    intro x _
    exact idle x.1 x.2
  rw [start, List.flatMap_append]
  exact (congrArg (s.dispatchers.flatMap g ++ ·) new).trans (List.append_nil _)

/-- Every step of an exchange keeps the books. -/
theorem Steps.books (steps : s.Steps ns s') (distinct : s.bus.names.Nodup) : s.Books ns s' := by
  cases steps with
  | dispatched found step => exact books_dispatcher found (step.books distinct) rfl rfl
  | worked found step => exact books_bus (step.books distinct []) rfl rfl
  | finished found step =>
    have settled (b : Bus) : Bus.Books [] b [] [] b.settle :=
      Bus.books_quiet (.refl _) rfl rfl rfl rfl rfl
    have books := (step.books distinct []).trans (settled _)
    rw [List.append_nil] at books
    exact books_bus books rfl rfl
  | retryTick => exact books_bus (Bus.books_takeDue ..) rfl rfl
  | requeued step => exact books_bus (step.books distinct) rfl rfl
  | sweepTick => exact books_bus (Bus.books_sweep ..) rfl rfl
  | expired l rest hand => exact books_bus (Bus.books_expire hand) rfl rfl
  | closed deadline settling empty settled =>
    refine ⟨.none (.append_left s.handled (.of_eq ?_)), rfl, rfl, rfl, Bus.names_close _, rfl, ?_⟩
    · exact congrArg (· ++ s.bus.pending) (Bus.waiting_close s.bus).symm
    · simp [isRunning]
  | joined => exact books_closing (.refl _) rfl rfl
  | aborted deadline next aborted joining found => exact books_abort deadline next aborted found
  | truncated deadline next aborted => exact books_truncate s deadline aborted
  | drained => exact books_closing ⟨rfl, rfl, rfl, rfl, rfl, rfl, rfl, rfl, rfl⟩ rfl rfl
  | waited => exact books_bus (Bus.books_quiet (.refl _) rfl rfl rfl rfl rfl) rfl rfl
  | interrupted => exact books_bus (Bus.books_quiet (.refl _) rfl rfl rfl rfl rfl) rfl rfl

end Exchange

/-! ## Runs -/

/-- What holds of a bus after any schedule. -/
structure Audit.Sound (p : Policy) (s : Audit σ) : Prop where
  policy : s.bus.policy = p
  distinct : s.bus.names.Nodup
  posts : Posts p [] s.history s.exchange.placed
  stats : s.bus.stats = s.history.foldl Stats.note Stats.zero
  letters : s.bus.deadLetters = (letters s.history).foldl (Bus.keep p) []
  listed : s.exchange.isRunning → ∀ m ∈ s.bus.roster, m.2 = true

namespace Audit

variable {p : Policy} {s : Audit σ} {ns : List Note} {exchange : Exchange σ}
  {callers : List Emission}

theorem sound_fresh (p : Policy) (world : σ) : (fresh p world).Sound p where
  policy := rfl
  distinct := List.nodup_nil
  posts := .none (.refl _)
  stats := rfl
  letters := rfl
  listed _ _ hm := nomatch hm

theorem Sound.books (sound : s.Sound p) (books : s.exchange.Books ns exchange) :
    Sound p ⟨exchange, callers, s.history ++ ns⟩ where
  policy := books.policy.trans sound.policy
  distinct := by
    have names : exchange.bus.names = s.bus.names := books.names
    rw [bus, names]
    exact sound.distinct
  posts := sound.posts.trans (sound.policy ▸ books.posts)
  stats := by rw [List.foldl_append, ← sound.stats]; exact books.stats
  letters := by
    rw [letters_append, List.foldl_append, ← sound.letters, ← sound.policy]
    exact books.letters
  listed running m hm := by
    obtain ⟨before, same⟩ := books.roster running
    exact sound.listed before m (same ▸ hm)

/-- Nobody has a mailbox under the name of a new subscriber. -/
theorem Sound.unknown {name : String} (sound : s.Sound p) (running : s.exchange.isRunning)
    (dead : s.bus.isLive name = false) : name ∉ s.bus.names := by
  refine Bus.notMem_names ?_
  cases known : s.bus.mailbox? name with
  | none => rfl
  | some m =>
    have found : (name, m) ∈ s.bus.mailboxes := by
      obtain ⟨before, after, split, -⟩ := List.lookup_eq_some_iff.mp known
      simp [split]
    have listed := sound.listed running (name, m.listed) (List.mem_map.mpr ⟨_, found, rfl⟩)
    simp_all [Bus.isLive]

/-- A subscription adds an empty mailbox. -/
theorem Sound.subscribed {name : String} {topics : List String} {deliver : Event → Work σ}
    (sound : s.Sound p) (running : s.exchange.isRunning)
    (ok : s.exchange.subscribe name topics deliver = .ok exchange) :
    Sound p ⟨exchange, s.callers, s.history⟩ := by
  obtain ⟨bus, done, rfl⟩ := Exchange.subscribe_ok ok
  obtain ⟨dead, rfl⟩ := Bus.subscribe_ok done
  have unknown := sound.unknown running dead
  have roster : ∀ box : String × Mailbox, box = (name, Mailbox.fresh) → box.2.listed = true := by
    rintro _ rfl
    rfl
  refine ⟨sound.policy, ?_, sound.posts.perm_right (.of_eq ?_), sound.stats, sound.letters, ?_⟩
  · have names : (s.bus.mailboxes ++ [(name, Mailbox.fresh)]).map Prod.fst =
        s.bus.names ++ [name] :=
      List.map_append
    change ((s.bus.mailboxes ++ [(name, Mailbox.fresh)]).map Prod.fst).Nodup
    rw [names, List.nodup_append]
    refine ⟨sound.distinct, List.nodup_cons.mpr ⟨List.not_mem_nil, List.nodup_nil⟩, ?_⟩
    rintro a ha b hb rfl
    exact unknown (List.mem_singleton.mp hb ▸ ha)
  · have waiting : (s.bus.mailboxes ++ [(name, Mailbox.fresh)]).flatMap copiesIn =
        s.bus.waiting := by
      rw [List.flatMap_append]
      exact List.append_nil _
    exact congrArg (fun w => s.exchange.handled ++ (w ++ s.bus.pending)) waiting.symm
  · intro _ m hm
    obtain ⟨box, hbox, rfl⟩ := List.mem_map.mp hm
    rcases List.mem_append.mp hbox with hbox | hbox
    · exact sound.listed running _ (List.mem_map.mpr ⟨box, hbox, rfl⟩)
    · exact roster box (List.mem_singleton.mp hbox)

theorem Sound.started (sound : s.Sound p) :
    Sound p ⟨s.exchange.start, s.callers, s.history⟩ := by
  have handled : s.exchange.start.handled = s.exchange.handled :=
    Exchange.flatMap_start fun _ _ => rfl
  refine ⟨sound.policy, sound.distinct, sound.posts.perm_right (.of_eq ?_), sound.stats,
    sound.letters, sound.listed⟩
  exact congrArg (· ++ s.bus.placed) handled.symm

theorem Sound.step (sound : s.Sound p) (steps : s.Steps ns exchange callers) :
    Sound p ⟨exchange, callers, s.history ++ ns⟩ := by
  have quiet : Bus.Books [] s.bus [] [] s.bus := Bus.books_quiet (.refl _) rfl rfl rfl rfl rfl
  cases steps with
  | idle => exact sound.books (Exchange.books_bus quiet rfl rfl)
  | subscribed running ok =>
    rw [List.append_nil]
    exact sound.subscribed running ok
  | started =>
    rw [List.append_nil]
    exact sound.started
  | published ok => exact sound.books (Exchange.books_bus (Bus.books_accept ok _) rfl rfl)
  | answered => exact sound.books (Exchange.books_bus (Bus.books_answered _ _) rfl rfl)
  | served found step =>
    exact sound.books (Exchange.books_bus (step.books sound.distinct []) rfl rfl)
  | touched => exact sound.books (Exchange.books_bus quiet rfl rfl)
  | moved step => exact sound.books (step.books sound.distinct)
  | shut => exact sound.books (Exchange.books_closing (.refl _) rfl rfl)

/-- After any schedule the history accounts for the deliveries, the counters and the
dead letters. -/
theorem sound_play (policy : Policy) (world : σ) (acts : List (Act σ)) :
    (play policy world acts).Sound policy :=
  play_induction (P := Sound policy) (sound_fresh policy world)
    (fun _ _ _ _ sound steps => sound.step steps) acts

end Audit

end Pipeworks
