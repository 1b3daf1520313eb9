import Pipeworks.Proofs.Bus.Ledger
import Pipeworks.Proofs.Bus.Step

/-!
# The books of a bus

Where the deliveries of a bus are, what its counters count, and which dead
letters it keeps. Every step posts its notes in these books: `Bus.Books` says so
of a change of the bus, together with the delivery that the stepping dispatcher
holds before and after it, and `Exchange.Books` of a step of the exchange.
-/

namespace Pipeworks

variable {σ : Type}

/-! ## Where the deliveries are -/

/-- The deliveries in a mailbox. -/
def copiesIn (m : String × Mailbox) : List (Parcel × Spot) :=
  m.2.items.map fun d => (d.parcel m.1, .waiting d.attempt)

/-- The delivery of a retry. -/
def Retry.copy (r : Retry) : Parcel × Spot := (r.parcel, .pending r.attempts)

/-- The delivery of a stale retry, whose letter has not been recorded. -/
def DeadLetter.copy (l : DeadLetter) : Parcel × Spot := (l.parcel, .pending l.attempts)

namespace Bus

/-- The names of all mailboxes. -/
def names (b : Bus) : List String := b.mailboxes.map Prod.fst

/-- The names of all mailboxes, and whether they are found. -/
def roster (b : Bus) : List (String × Bool) := b.mailboxes.map fun m => (m.1, m.2.listed)

/-- The deliveries in mailboxes. -/
def waiting (b : Bus) : List (Parcel × Spot) := b.mailboxes.flatMap copiesIn

/-- The deliveries among the retries and in the hands of ticks. -/
def pending (b : Bus) : List (Parcel × Spot) :=
  b.retries.map Retry.copy ++ b.requeuing.map Retry.copy ++ b.expiring.map DeadLetter.copy

/-- The deliveries that no subscriber handles. -/
def placed (b : Bus) : List (Parcel × Spot) := b.waiting ++ b.pending

/-- Record a dead letter; the oldest goes when there is no room. -/
def keep (p : Policy) (ls : List DeadLetter) (l : DeadLetter) : List DeadLetter :=
  (if max p.deadLetterCapacity 1 ≤ ls.length then ls.tail else ls) ++ [l]

end Bus

/-- The delivery that a dispatcher handles. -/
def Dispatcher.inHand (d : Dispatcher σ) : List (Parcel × Spot) :=
  match d.post with
  | .handling x _ => [(x.parcel d.name, .handled x.attempt)]
  | _ => []

namespace Exchange

/-- The deliveries that are handled. -/
def handled (s : Exchange σ) : List (Parcel × Spot) := s.dispatchers.flatMap Dispatcher.inHand

/-- The deliveries that have not ended. -/
def placed (s : Exchange σ) : List (Parcel × Spot) := s.handled ++ s.bus.placed

end Exchange

/-- The deliveries among some that are in spots of one kind. -/
theorem crowd_of_spots {q : Spot → Bool} {a : List (Parcel × Spot)} {yes : Bool}
    (spots : ∀ e ∈ a, q e.2 = yes) : crowd q a = if yes then a.length else 0 := by
  cases yes with
  | true => exact List.countP_eq_length.mpr spots
  | false =>
    refine List.countP_eq_zero.mpr fun e he => ?_
    rw [spots e he]
    exact Bool.false_ne_true

/-- In an exchange the spot of a delivery says whether it is in a mailbox, handled or pending. -/
theorem Exchange.crowd_placed (s : Exchange σ) {q : Spot → Bool} (waits works pends : Bool)
    (waiting : ∀ n, q (.waiting n) = waits) (handled : ∀ n, q (.handled n) = works)
    (pending : ∀ n, q (.pending n) = pends) :
    crowd q s.placed = (if works then s.handled.length else 0) +
      ((if waits then s.bus.waiting.length else 0) + if pends then s.bus.pending.length else 0) := by
  have split : crowd q s.placed = crowd q s.handled + (crowd q s.bus.waiting + crowd q s.bus.pending) := by
    simp only [crowd, placed, Bus.placed, List.countP_append]
  rw [split, crowd_of_spots (a := s.handled), crowd_of_spots (a := s.bus.waiting),
    crowd_of_spots (a := s.bus.pending)]
  · intro e he
    rcases List.mem_append.mp he with he | he
    · rcases List.mem_append.mp he with he | he <;>
      · obtain ⟨r, -, rfl⟩ := List.mem_map.mp he
        exact pending _
    · obtain ⟨l, -, rfl⟩ := List.mem_map.mp he
      exact pending _
  · intro e he
    obtain ⟨m, -, he⟩ := List.mem_flatMap.mp he
    obtain ⟨d, -, rfl⟩ := List.mem_map.mp he
    exact waiting _
  · intro e he
    obtain ⟨d, -, he⟩ := List.mem_flatMap.mp he
    rw [Dispatcher.inHand] at he
    split at he
    · obtain rfl := List.mem_singleton.mp he
      exact handled _
    · exact absurd he List.not_mem_nil

/-- The counters after a note. -/
def Stats.note (s : Stats) : Note → Stats
  | .accepted _ => { s with emitted := s.emitted + 1 }
  | .delivered _ _ => { s with delivered := s.delivered + 1 }
  | .requeued _ => { s with retried := s.retried + 1 }
  | .gaveUp _ | .expired _ => { s with deadLettered := s.deadLettered + 1 }
  | _ => s

/-! ## Mailboxes -/

namespace Bus

theorem names_eq (b : Bus) : b.names = b.roster.map Prod.fst := by
  simp [names, roster]

theorem roster_changeMailbox (b : Bus) (name : String) {f : Mailbox → Mailbox}
    (keeps : ∀ m, (f m).listed = m.listed) : (b.changeMailbox name f).roster = b.roster := by
  simp only [roster, changeMailbox, List.map_map]
  apply List.map_congr_left
  intro m _
  simp only [Function.comp_apply]
  split
  · rw [keeps]
  · rfl

theorem roster_of_changed {b b' : Bus} {name : String} {f : Mailbox → Mailbox}
    (boxes : b'.mailboxes = (b.changeMailbox name f).mailboxes)
    (keeps : ∀ m, (f m).listed = m.listed) : b'.roster = b.roster := by
  rw [← roster_changeMailbox b name keeps, roster, boxes]
  rfl

theorem changeMailbox_of_notMem {b : Bus} {name : String} (f : Mailbox → Mailbox)
    (h : name ∉ b.names) : (b.changeMailbox name f).mailboxes = b.mailboxes := by
  refine (List.map_congr_left ?_).trans (List.map_id _)
  intro m hm
  apply if_neg
  intro hn
  exact h (List.mem_map.mpr ⟨m, hm, hn⟩)

theorem notMem_names {b : Bus} {name : String} (h : b.mailbox? name = none) : name ∉ b.names := by
  intro hn
  obtain ⟨m, hm, rfl⟩ := List.mem_map.mp hn
  rw [mailbox?, List.lookup_eq_none_iff] at h
  simpa using h m hm

/-- A mailbox that is found stands in one place, and only there is it changed. -/
theorem mailboxes_perm {b : Bus} {name : String} {m : Mailbox} (distinct : b.names.Nodup)
    (known : b.mailbox? name = some m) :
    ∃ rest, b.mailboxes.Perm ((name, m) :: rest) ∧
      ∀ f, (b.changeMailbox name f).mailboxes.Perm ((name, f m) :: rest) := by
  obtain ⟨policy, topics, boxes, retries, requeuing, expiring, dead, stats, inFlight, closed,
    streams⟩ := b
  simp only [names, mailbox?, changeMailbox] at distinct known ⊢
  induction boxes with
  | nil => simp at known
  | cons box boxes ih =>
    obtain ⟨k, c⟩ := box
    simp only [List.map_cons, List.nodup_cons] at distinct
    obtain ⟨absent, distinct⟩ := distinct
    by_cases same : k = name
    · subst same
      obtain rfl : c = m := by simpa using known
      refine ⟨boxes, .refl _, ?_⟩
      intro f
      have others : boxes.map (fun m => if m.1 = k then (m.1, f m.2) else m) = boxes := by
        refine (List.map_congr_left ?_).trans (List.map_id _)
        intro m hm
        apply if_neg
        intro hn
        exact absent (List.mem_map.mpr ⟨m, hm, hn⟩)
      rw [List.map_cons, if_pos rfl, others]
    · have known : boxes.lookup name = some m := by
        simpa [List.lookup_cons, beq_eq_false_iff_ne.mpr (Ne.symm same)] using known
      obtain ⟨rest, hb, hf⟩ := ih distinct known
      refine ⟨(k, c) :: rest, (hb.cons _).trans (.swap ..), ?_⟩
      intro f
      rw [List.map_cons, if_neg same]
      exact ((hf f).cons _).trans (.swap ..)

theorem waiting_perm {b : Bus} {name : String} {m : Mailbox} (distinct : b.names.Nodup)
    (known : b.mailbox? name = some m) :
    ∃ rest, b.waiting.Perm (copiesIn (name, m) ++ rest) ∧
      ∀ f, (b.changeMailbox name f).waiting.Perm (copiesIn (name, f m) ++ rest) := by
  obtain ⟨rest, hb, hf⟩ := mailboxes_perm distinct known
  exact ⟨rest.flatMap copiesIn, hb.flatMap_right copiesIn, fun f => (hf f).flatMap_right copiesIn⟩

/-- A delivery comes into a mailbox, and the other mailboxes stay. -/
theorem waiting_put {b : Bus} {name : String} {m : Mailbox} {f : Mailbox → Mailbox}
    {d : Delivery} (b' : Bus) (distinct : b.names.Nodup) (known : b.mailbox? name = some m)
    (boxes : b'.mailboxes = (b.changeMailbox name f).mailboxes)
    (items : (f m).items = m.items ++ [d]) :
    b'.waiting.Perm ((d.parcel name, .waiting d.attempt) :: b.waiting) := by
  obtain ⟨rest, hb, hf⟩ := waiting_perm distinct known
  have same : b'.waiting = (b.changeMailbox name f).waiting := by rw [waiting, boxes, waiting]
  have added : copiesIn (name, f m) =
      copiesIn (name, m) ++ [(d.parcel name, .waiting d.attempt)] := by
    simp [copiesIn, items]
  rw [same]
  refine (hf f).trans (.trans ?_ (hb.symm.cons _))
  rw [added, List.append_assoc]
  exact List.perm_middle

/-- A change that leaves the deliveries in the mailboxes alone. -/
theorem waiting_changeMailbox (b : Bus) (name : String) {f : Mailbox → Mailbox}
    (keeps : ∀ m, (f m).items = m.items) : (b.changeMailbox name f).waiting = b.waiting := by
  simp only [waiting, changeMailbox, List.flatMap_map]
  apply List.flatMap_congr
  intro m _
  split
  · simp [copiesIn, keeps]
  · rfl

theorem waiting_close (b : Bus) : b.close.waiting = b.waiting := by
  simp only [waiting, close, List.flatMap_map]
  rfl

theorem names_close (b : Bus) : b.close.names = b.names := by
  simp only [names, close, List.map_map]
  rfl

end Bus

/-! ## Changes of the bus -/

/-- A change of the bus posts its notes; `before` and `after` are the deliveries in
the hand of the dispatcher that steps. -/
structure Bus.Books (before : List (Parcel × Spot)) (b : Bus) (ns : List Note)
    (after : List (Parcel × Spot)) (b' : Bus) : Prop where
  posts : Posts b.policy (before ++ b.placed) ns (after ++ b'.placed)
  stats : b'.stats = ns.foldl Stats.note b.stats
  letters : b'.deadLetters = (letters ns).foldl (Bus.keep b.policy) b.deadLetters
  policy : b'.policy = b.policy
  roster : b'.roster = b.roster
  topics : b'.topics = b.topics

namespace Bus

variable {b b' : Bus}

/-- A change that only moves deliveries between the hands of ticks and the retries. -/
theorem books_quiet {x : List (Parcel × Spot)} (placed : b.placed.Perm b'.placed)
    (stats : b'.stats = b.stats) (letters : b'.deadLetters = b.deadLetters)
    (policy : b'.policy = b.policy) (roster : b'.roster = b.roster)
    (topics : b'.topics = b.topics) : Books x b [] x b' :=
  ⟨.none (placed.append_left x), stats, letters, policy, roster, topics⟩

theorem Same.placed (same : b.Same b') : b'.placed = b.placed := by
  simp only [Bus.placed, waiting, pending, same.mailboxes, same.retries, same.requeuing,
    same.expiring]

theorem Same.books (same : b.Same b') (x : List (Parcel × Spot)) : Books x b [] x b' :=
  books_quiet (same.placed ▸ .refl _) same.stats same.deadLetters same.policy
    (by rw [roster, same.mailboxes]; rfl) same.topics

theorem books_touch {name : String} {f : Mailbox → Mailbox} {x : List (Parcel × Spot)}
    (boxes : b'.mailboxes = (b.changeMailbox name f).mailboxes)
    (keeps : ∀ m, (f m).items = m.items ∧ (f m).listed = m.listed)
    (pending : b'.pending = b.pending) (stats : b'.stats = b.stats)
    (letters : b'.deadLetters = b.deadLetters) (policy : b'.policy = b.policy)
    (topics : b'.topics = b.topics) : Books x b [] x b' := by
  have waiting : b'.waiting = b.waiting := by
    rw [← waiting_changeMailbox b name fun m => (keeps m).1, Bus.waiting, boxes]
    rfl
  refine books_quiet (.of_eq ?_) stats letters policy
    (roster_of_changed boxes fun m => (keeps m).2) topics
  rw [placed, placed, waiting, pending]

theorem books_accept {e : Event} {emission : Emission} (ok : b.accept e = .ok (emission, b'))
    (x : List (Parcel × Spot)) : Books x b [.accepted emission] x b' := by
  obtain ⟨-, -, rfl⟩ := accept_ok ok
  exact ⟨.one trivial (.refl _) (.refl _), rfl, rfl, rfl, rfl, rfl⟩

theorem books_answered (e : Emission) (x : List (Parcel × Spot)) : Books x b [.answered e] x b :=
  ⟨.one trivial (.refl _) (.refl _), rfl, rfl, rfl, rfl, rfl⟩

theorem Serves.books {e e' : Emission} {ns : List Note} (serves : b.Serves e ns e' b')
    (distinct : b.names.Nodup) (x : List (Parcel × Spot)) : Books x b ns x b' := by
  cases serves with
  | skipped name left free next dead => exact books_quiet (.refl _) rfl rfl rfl rfl rfl
  | found name left free next live =>
    exact books_touch (f := fun m => { m with senders := m.senders + 1 }) rfl
      (fun _ => ⟨rfl, rfl⟩) rfl rfl rfl rfl rfl
  | missed name holding missing => exact books_quiet (.refl _) rfl rfl rfl rfl rfl
  | refused name m holding known deserted =>
    exact books_touch (f := fun m => { m with senders := m.senders - 1 }) rfl
      (fun _ => ⟨rfl, rfl⟩) rfl rfl rfl rfl rfl
  | put name m holding known receiving room =>
    refine ⟨?_, rfl, rfl, rfl, roster_changeMailbox _ _ fun _ => rfl, rfl⟩
    refine .one (c := x ++ b.placed) rfl (.refl _) ?_
    have put := waiting_put _ distinct known (d := ⟨e.serial, e.event, 1, none⟩)
      (f := fun m => { m with
        items := m.items ++ [⟨e.serial, e.event, 1, none⟩], senders := m.senders - 1 }) rfl rfl
    have moved (k : Parcel × Spot) : (k :: (x ++ b.placed)).Perm (x ++ k :: b.placed) :=
      List.perm_middle.symm
    exact (moved _).trans ((put.symm.append_right b.pending).append_left x)

theorem books_take {name : String} {d : Delivery} (taken : b.take? name = some (d, b'))
    (distinct : b.names.Nodup) :
    Books [] b [.begun name d] [(d.parcel name, .handled d.attempt)] b' := by
  obtain ⟨m, others, known, items, rfl⟩ := take?_eq_some taken
  refine ⟨?_, rfl, rfl, rfl, roster_changeMailbox _ _ fun _ => rfl, rfl⟩
  obtain ⟨rest, hb, hf⟩ := waiting_perm distinct known
  have hw := hf fun m => { m with items := m.items.tail }
  have hp : (b.changeMailbox name fun m => { m with items := m.items.tail }).pending =
    b.pending := rfl
  refine .one (c := copiesIn (name, { m with items := others }) ++ rest ++ b.pending)
    trivial ?_ ?_
  · refine (hb.append_right b.pending).trans (.of_eq ?_)
    simp [copiesIn, items, Note.departure]
  · have hw := (hw.symm.append_right b.pending).cons (d.parcel name, Spot.handled d.attempt)
    refine (List.Perm.of_eq ?_).trans hw
    simp [items, Note.arrival]

theorem books_succeed (name : String) (d : Delivery) :
    Books [(d.parcel name, .handled d.attempt)] b [.delivered name d] [] b.succeed :=
  ⟨.one trivial (.refl _) (.refl _), rfl, rfl, rfl, rfl, rfl⟩

/-- A failed delivery goes to the retries, or is given up. -/
theorem books_fail (now : Nat) (name : String) (d : Delivery) (e : Fault) :
    Books [(d.parcel name, .handled d.attempt)] b [b.failureNote now name d e] []
      (b.fail now name d e) := by
  rw [failureNote, fail, Policy.afterFailure]
  by_cases used : b.policy.maxAttempts ≤ d.attempt
  · simp only [if_pos used]
    exact ⟨.one used (.refl _) (.refl _), rfl, rfl, rfl, rfl, rfl⟩
  · simp only [if_neg used]
    refine ⟨.one (c := b.placed) (Nat.lt_of_not_le used) (.refl _) ?_, rfl, rfl, rfl, rfl, rfl⟩
    rw [List.perm_iff_count]
    intro k
    simp only [placed, pending, waiting, settle, List.map_append, List.map_cons, List.map_nil,
      List.nil_append, Note.arrival, List.count_append, Retry.copy, Retry.parcel,
      Option.toList_some]
    omega

/-- The mailbox of a subscriber is emptied; `d` is the delivery that it handled. -/
theorem books_crash (name : String) (d : Delivery) (distinct : b.names.Nodup) :
    Books [(d.parcel name, .handled d.attempt)] b
      (.lost name d :: (b.contents name).map (.dropped name)) [] (b.desert name) := by
  have letters : letters (.lost name d :: (b.contents name).map (.dropped name)) = [] := by
    rw [letters, List.filterMap_eq_nil_iff]
    intro n hn
    rcases List.mem_cons.mp hn with rfl | hn
    · rfl
    · obtain ⟨x, -, rfl⟩ := List.mem_map.mp hn
      rfl
  have counts : ∀ (xs : List Delivery) (st : Stats),
      (xs.map (Note.dropped name)).foldl Stats.note st = st := by
    intro xs st
    induction xs with
    | nil => rfl
    | cons x xs ih => exact ih
  refine ⟨?_, (counts _ _).symm, by rw [letters]; rfl, rfl,
    roster_changeMailbox _ _ fun _ => rfl, rfl⟩
  refine .removals ?_ ?_
  · intro n hn
    rcases List.mem_cons.mp hn with rfl | hn
    · exact ⟨trivial, rfl⟩
    · obtain ⟨x, -, rfl⟩ := List.mem_map.mp hn
      exact ⟨trivial, rfl⟩
  · have hp : (b.desert name).pending = b.pending := rfl
    rw [List.filterMap_cons, List.filterMap_map]
    refine .cons _ ?_
    suffices hw : b.waiting.Perm
        ((b.contents name).filterMap (Note.departure ∘ Note.dropped name) ++
          (b.desert name).waiting) by
      rw [placed, placed, hp]
      exact (hw.append_right b.pending).trans (.of_eq (List.append_assoc ..))
    rw [contents]
    cases known : b.mailbox? name with
    | none =>
      have stays : (b.desert name).waiting = b.waiting := by
        rw [waiting, desert, changeMailbox_of_notMem _ (notMem_names known), waiting]
      rw [stays]
      exact .refl _
    | some m =>
      obtain ⟨rest, hb, hf⟩ := waiting_perm distinct known
      have emptied : (b.desert name).waiting.Perm rest :=
        hf fun m => { m with items := [], receiving := false }
      refine hb.trans (.append (.of_eq ?_) emptied.symm)
      simp only [Option.map_some, Option.getD_some, copiesIn]
      rw [← List.filterMap_eq_map]
      rfl

/-- A mailbox with nothing in it is deserted without a loss. -/
theorem books_retire {name : String} (empty : b.take? name = none) (distinct : b.names.Nodup) :
    Books [] b [] [] (b.desert name) := by
  refine books_quiet ?_ rfl rfl rfl (roster_changeMailbox _ _ fun _ => rfl) rfl
  refine .append_right b.pending ?_
  rw [take?] at empty
  cases known : b.mailbox? name with
  | none =>
    rw [waiting, waiting, desert, changeMailbox_of_notMem _ (notMem_names known)]
  | some m =>
    obtain ⟨rest, hb, hf⟩ := waiting_perm distinct known
    have items : m.items = [] := by
      cases items : m.items with
      | nil => rfl
      | cons first others => simp [known, items] at empty
    refine hb.trans ((List.Perm.of_eq ?_).trans (hf _).symm)
    simp [copiesIn, items]

/-! ## Ticks -/

theorem books_takeDue (now : Nat) (x : List (Parcel × Spot)) :
    Books x b [] x (b.takeDue now) := by
  refine books_quiet (.append_left b.waiting ?_) rfl rfl rfl rfl rfl
  have split : (b.retries.filter (fun r => r.due ≤ now) ++
      b.retries.filter (fun r => !decide (r.due ≤ now))).Perm b.retries :=
    List.filter_append_perm ..
  have copies := split.map Retry.copy
  simp only [pending, takeDue, Retries.takeDue, List.partition_eq_filter_filter, List.map_append]
    at copies ⊢
  rw [List.perm_iff_count] at copies ⊢
  intro k
  have hk := copies k
  simp only [List.count_append, Function.comp_def] at hk ⊢
  omega

theorem books_sweep (now : Nat) (x : List (Parcel × Spot)) : Books x b [] x (b.sweep now) := by
  refine books_quiet (.append_left b.waiting ?_) rfl rfl rfl rfl rfl
  have split : (b.retries.filter (Retries.isStale now b.policy.retryTtl b.isLive) ++
      b.retries.filter (fun r => !Retries.isStale now b.policy.retryTtl b.isLive r)).Perm
        b.retries :=
    List.filter_append_perm ..
  have copies := split.map Retry.copy
  have letters : ∀ rs : List Retry,
      (rs.map b.staleLetter).map DeadLetter.copy = rs.map Retry.copy := by
    intro rs
    rw [List.map_map]
    rfl
  simp only [pending, sweep, Retries.purge, List.partition_eq_filter_filter, List.map_append,
    letters] at copies ⊢
  rw [List.perm_iff_count] at copies ⊢
  intro k
  have hk := copies k
  simp only [List.count_append, Function.comp_def] at hk ⊢
  omega

theorem books_expire {l : DeadLetter} {rest : List DeadLetter} (hand : b.expiring = l :: rest) :
    Books [] b [.expired l] [] ({ b with expiring := rest }.bury l) := by
  refine ⟨.one (c := b.waiting ++ (b.retries.map Retry.copy ++ b.requeuing.map Retry.copy ++
    rest.map DeadLetter.copy)) trivial ?_ (.refl _), rfl, rfl, rfl, rfl, rfl⟩
  rw [List.perm_iff_count]
  intro k
  simp only [placed, pending, hand, List.map_cons, Note.departure, DeadLetter.copy,
    List.nil_append, List.count_append, List.count_cons, Option.toList_some, List.count_nil]
  omega

theorem Requeues.books {now : Nat} {ns : List Note} (requeues : b.Requeues now ns b')
    (distinct : b.names.Nodup) : Books [] b ns [] b' := by
  cases requeues with
  | returned r rest hand dead =>
    refine books_quiet (.append_left b.waiting ?_) rfl rfl rfl rfl rfl
    rw [List.perm_iff_count]
    intro k
    simp only [pending, hand, List.map_append, List.map_cons, List.map_nil, List.count_append,
      List.count_cons, List.count_nil]
    omega
  | full r rest m hand known listed crowded =>
    refine books_quiet (.append_left b.waiting ?_) rfl rfl rfl rfl rfl
    rw [List.perm_iff_count]
    intro k
    simp only [pending, hand, Retry.copy, Retry.parcel, List.map_append, List.map_cons,
      List.map_nil, List.count_append, List.count_cons, List.count_nil]
    omega
  | put r rest m hand known listed receiving room =>
    refine ⟨?_, rfl, rfl, rfl, roster_of_changed (f := fun m => { m with
      items := m.items ++ [⟨r.serial, r.event, r.attempts + 1, some r.firstFailure⟩] }) rfl
      fun _ => rfl, rfl⟩
    have put := waiting_put ({ b.changeMailbox r.subscriber (fun m => { m with
        items := m.items ++ [⟨r.serial, r.event, r.attempts + 1, some r.firstFailure⟩] }) with
      requeuing := rest } : Bus) distinct known (f := fun m => { m with
        items := m.items ++ [⟨r.serial, r.event, r.attempts + 1, some r.firstFailure⟩] }) rfl rfl
    refine .one (c := b.waiting ++ (b.retries.map Retry.copy ++ rest.map Retry.copy ++
      b.expiring.map DeadLetter.copy)) trivial ?_ (put.symm.append_right _)
    rw [List.perm_iff_count]
    intro k
    simp only [placed, pending, hand, List.map_cons, Note.departure, Retry.copy,
      List.nil_append, List.count_append, List.count_cons, Option.toList_some, List.count_nil]
    omega

end Bus

end Pipeworks
