import Pipeworks.Proofs.Bus.Account

/-!
# Recipients

An accepted event promises one delivery to each of its recipients, and nothing
else begins a delivery: whatever an emission still has to serve was promised and
has not been begun. Emissions have different numbers, and a topic names a
subscriber once. So no delivery is begun twice.
-/

namespace Pipeworks

variable {σ : Type}

/-- The deliveries that an emission may still begin. -/
def Emission.toServe (e : Emission) : List Parcel :=
  (e.holding.toList ++ e.left).map fun name => ⟨e.serial, name⟩

def Activity.toServe (a : Activity σ) : List Parcel :=
  a.emission?.toList.flatMap Emission.toServe

def Stride.toServe (stride : Stride σ) : List Parcel :=
  stride.emission?.toList.flatMap Emission.toServe

def Dispatcher.toServe (d : Dispatcher σ) : List Parcel :=
  match d.post with
  | .handling _ a => a.toServe
  | _ => []

/-- The deliveries that the emissions of an exchange may still begin. -/
def Exchange.toServe (s : Exchange σ) : List Parcel :=
  s.dispatchers.flatMap Dispatcher.toServe ++ s.floor.tasks.flatMap Activity.toServe

/-- The deliveries that may still be begun by all emissions under way. -/
def Audit.toServe (s : Audit σ) : List Parcel :=
  s.exchange.toServe ++ s.callers.flatMap Emission.toServe

/-- The deliveries that a note promises. -/
def Note.promised : Note → List Parcel
  | accepted e => e.toServe
  | _ => []

/-- The deliveries that were promised. -/
def promised (h : List Note) : List Parcel := h.flatMap Note.promised

/-- Whatever the notes begin, and whatever can be begun after them, could be begun
before them or is promised by them. -/
def Settles (before : List Parcel) (ns : List Note) (after : List Parcel) : Prop :=
  ∀ k, (opened ns).count k + after.count k ≤ before.count k + (promised ns).count k

namespace Settles

variable {a b c : List Parcel} {ns ms : List Note}

theorem trans (first : Settles a ns b) (second : Settles b ms c) : Settles a (ns ++ ms) c := by
  intro k
  have h₁ := first k
  have h₂ := second k
  simp only [opened, promised, List.filterMap_append, List.flatMap_append, List.count_append]
    at h₁ h₂ ⊢
  omega

theorem frame (h : Settles a ns b) (c : List Parcel) : Settles (c ++ a) ns (c ++ b) := by
  intro k
  have hk := h k
  simp only [List.count_append]
  omega

theorem beside (h : Settles a ns b) (c : List Parcel) : Settles (a ++ c) ns (b ++ c) := by
  intro k
  have hk := h k
  simp only [List.count_append]
  omega

theorem quiet (opens : opened ns = []) (fewer : ∀ k, b.count k ≤ a.count k) : Settles a ns b := by
  intro k
  rw [opens]
  have hk := fewer k
  simp only [List.count_nil]
  omega

theorem one {α : Type} {l : List α} {i : Nat} {x : α} {g : α → List Parcel}
    (found : l[i]? = some x) (x' : α) (h : Settles (g x) ns (g x')) :
    Settles (l.flatMap g) ns ((l.set i x').flatMap g) := by
  obtain ⟨before, after⟩ := flatMap_set_perm found g
  intro k
  have hk := h k
  have hb := before.count_eq k
  have ha := (after x').count_eq k
  simp only [List.count_append] at hb ha
  omega

theorem removed {α : Type} {l : List α} {i : Nat} {x : α} {g : α → List Parcel}
    (found : l[i]? = some x) (h : Settles (g x) ns []) :
    Settles (l.flatMap g) ns ((l.eraseIdx i).flatMap g) := by
  obtain ⟨before, -⟩ := flatMap_set_perm found g
  intro k
  have hk := h k
  have hb := before.count_eq k
  simp only [List.count_append, List.count_nil] at hb hk
  omega

end Settles

/-! ## Steps -/

theorem Bus.Serves.settles {b b' : Bus} {e e' : Emission} {ns : List Note}
    (serves : b.Serves e ns e' b') : Settles e.toServe ns e'.toServe := by
  cases serves with
  | skipped name left free next =>
    apply Settles.quiet rfl
    intro k
    simp only [Emission.toServe, free, next, Option.toList_none, List.nil_append, List.map_cons]
    exact List.count_le_count_cons
  | found name left free next =>
    apply Settles.quiet rfl
    intro k
    simp [Emission.toServe, free, next]
  | missed name holding | refused name m holding =>
    apply Settles.quiet rfl
    intro k
    simp only [Emission.toServe, holding, Option.toList_none, Option.toList_some, List.nil_append,
      List.cons_append, List.map_cons]
    exact List.count_le_count_cons
  | put name m holding =>
    intro k
    simp only [Emission.toServe, holding, opened, promised, Note.opened, Note.promised,
      Delivery.parcel, Option.toList_none, Option.toList_some, List.nil_append, List.cons_append,
      List.map_cons, List.filterMap_cons, List.filterMap_nil, List.flatMap_cons, List.flatMap_nil,
      List.append_nil, List.count_cons, List.count_nil]
    omega

theorem Activity.Steps.settles {f f' : Floor σ} {a : Activity σ} {ns : List Note}
    {stride : Stride σ} (steps : Activity.Steps f a ns stride f') :
    Settles a.toServe ns stride.toServe := by
  cases steps with
  | quiet same tasks before after =>
    simp only [toServe, Stride.toServe, before, after]
    exact .quiet rfl fun _ => Nat.le_refl _
  | accepted ok =>
    intro k
    have opens (e : Emission) : opened [.accepted e] = [] := rfl
    simp [toServe, Stride.toServe, emission?, Stride.emission?, opens, promised, Note.promised]
  | answered done => exact .quiet rfl fun _ => Nat.zero_le _
  | served step =>
    simpa [toServe, Stride.toServe, emission?, Stride.emission?] using step.settles

/-- A program adds no emissions to the tracked work. -/
theorem Activity.Steps.tasks {f f' : Floor σ} {a : Activity σ} {ns : List Note}
    {stride : Stride σ} (steps : Activity.Steps f a ns stride f') :
    f'.tasks.flatMap Activity.toServe = f.tasks.flatMap Activity.toServe ∧
      ∀ (i : Nat) (x : Activity σ), f.tasks[i]? = some x → f'.tasks[i]? = some x := by
  cases steps with
  | quiet same tasks =>
    rcases tasks with tasks | ⟨w, tasks⟩
    · rw [tasks]
      exact ⟨rfl, fun _ _ found => found⟩
    · rw [tasks, List.flatMap_append]
      refine ⟨List.append_nil _, ?_⟩
      intro i x found
      obtain ⟨inside, -⟩ := List.getElem?_eq_some_iff.mp found
      rw [List.getElem?_append_left inside]
      exact found
  | accepted | answered | served => exact ⟨rfl, fun _ _ found => found⟩

/-- A note that neither begins nor promises a delivery. -/
def Note.Idle (n : Note) : Prop := n.opened = none ∧ n.promised = []

theorem idle_all {ns : List Note} (idle : ∀ n ∈ ns, n.Idle) :
    opened ns = [] ∧ promised ns = [] := by
  constructor
  · apply List.filterMap_eq_nil_iff.mpr
    intro n hn
    exact (idle n hn).1
  · apply List.flatMap_eq_nil_iff.mpr
    intro n hn
    exact (idle n hn).2

theorem idle_crash (name : String) (d : Delivery) (ds : List Delivery) :
    ∀ n ∈ Note.lost name d :: ds.map (.dropped name), n.Idle := by
  intro n hn
  rcases List.mem_cons.mp hn with rfl | hn
  · constructor <;> rfl
  · obtain ⟨x, -, rfl⟩ := List.mem_map.mp hn
    constructor <;> rfl

theorem idle_discarded (rs : List Retry) : ∀ n ∈ rs.map Note.discarded, n.Idle := by
  intro n hn
  obtain ⟨r, -, rfl⟩ := List.mem_map.mp hn
  constructor <;> rfl

theorem Dispatcher.idle_abort (d : Dispatcher σ) : ∀ n ∈ d.abortNotes, n.Idle := by
  rw [abortNotes]
  intro n hn
  split at hn
  · obtain rfl := List.mem_singleton.mp hn
    constructor <;> rfl
  · exact absurd hn List.not_mem_nil

theorem Bus.idle_failure (b : Bus) (now : Nat) (name : String) (d : Delivery) (e : Fault) :
    ∀ n ∈ [b.failureNote now name d e], n.Idle := by
  intro n hn
  obtain rfl := List.mem_singleton.mp hn
  rw [failureNote]
  split <;> exact ⟨rfl, rfl⟩

theorem Dispatcher.Steps.settles {f f' : Floor σ} {d d' : Dispatcher σ} {ns : List Note}
    (steps : d.Steps f ns d' f') : Settles d.toServe ns d'.toServe := by
  cases steps with
  | took | retired | succeeded => exact .quiet rfl fun _ => Nat.zero_le _
  | worked post step =>
    simp only [toServe, post]
    exact step.settles
  | failed => exact .quiet (idle_all (Bus.idle_failure _ _ _ _ _)).1 fun _ => Nat.zero_le _
  | crashed => exact .quiet (idle_all (idle_crash _ _ _)).1 fun _ => Nat.zero_le _

theorem Dispatcher.Steps.tasks {f f' : Floor σ} {d d' : Dispatcher σ} {ns : List Note}
    (steps : d.Steps f ns d' f') :
    f'.tasks.flatMap Activity.toServe = f.tasks.flatMap Activity.toServe := by
  cases steps with
  | took | retired => rfl
  | worked _ step | succeeded _ step | failed _ step | crashed _ step => exact step.tasks.1

theorem Exchange.Steps.settles {s s' : Exchange σ} {ns : List Note} (steps : s.Steps ns s') :
    Settles s.toServe ns s'.toServe := by
  have still {ns : List Note} (opens : opened ns = []) : Settles s.toServe ns s.toServe :=
    .quiet opens fun _ => Nat.le_refl _
  cases steps with
  | @dispatched i d ns d' f' found step =>
    rw [toServe, toServe, step.tasks]
    exact (Settles.one found d' step.settles).beside _
  | @worked i a ns a' f' found step =>
    have both := Settles.one (step.tasks.2 i a found) a' step.settles
    rw [step.tasks.1] at both
    exact both.frame _
  | finished found step =>
    have both := Settles.removed (step.tasks.2 _ _ found) step.settles
    rw [step.tasks.1] at both
    exact both.frame _
  | requeued step =>
    cases step with
    | _ => exact still rfl
  | @aborted d deadline next aborted joining found =>
    have lost : Settles d.toServe d.abortNotes (Dispatcher.toServe { d with post := .aborted }) :=
      .quiet (idle_all d.idle_abort).1 fun _ => Nat.zero_le _
    exact .beside (.one found { d with post := .aborted } lost) _
  | truncated => exact still (idle_all (idle_discarded _)).1
  | drained =>
    apply Settles.quiet rfl
    intro k
    simp only [toServe, List.count_append, List.flatMap_nil, List.count_nil]
    omega
  | _ => exact still rfl

/-- Everything that happens to a bus serves what is to be served. -/
theorem Audit.Steps.settles {s : Audit σ} {ns : List Note} {exchange : Exchange σ}
    {callers : List Emission} (steps : s.Steps ns exchange callers) (h : List Note) :
    Settles s.toServe ns (toServe ⟨exchange, callers, h⟩) := by
  have still {ns : List Note} (opens : opened ns = []) : Settles s.toServe ns s.toServe :=
    .quiet opens fun _ => Nat.le_refl _
  cases steps with
  | idle | touched | shut => exact still rfl
  | subscribed running ok =>
    obtain ⟨bus, -, rfl⟩ := Exchange.subscribe_ok ok
    exact still rfl
  | started =>
    have same : s.exchange.start.toServe = s.exchange.toServe :=
      congrArg (· ++ s.exchange.floor.tasks.flatMap Activity.toServe)
        (Exchange.flatMap_start fun _ _ => rfl)
    rw [toServe, toServe, same]
    exact still rfl
  | @published e emission bus ok =>
    intro k
    have opens : opened [.accepted emission] = [] := rfl
    have promises : promised [.accepted emission] = emission.toServe := List.append_nil _
    have same : (s.exchange.onBus fun _ => bus).toServe = s.exchange.toServe := rfl
    simp only [toServe, opens, promises, same, List.flatMap_append, List.flatMap_cons,
      List.flatMap_nil, List.count_append, List.count_nil]
    omega
  | answered found => exact (Settles.removed found (.quiet rfl fun _ => Nat.zero_le _)).frame _
  | served found step => exact (Settles.one found _ step.settles).frame _
  | moved step => exact step.settles.beside _

/-! ## What is promised -/

/-- The notes promise nothing, or they are those of an event that is accepted. -/
def Bus.Promises (b : Bus) (ns : List Note) : Prop :=
  promised ns = [] ∨
    ∃ e emission bus, b.accept e = .ok (emission, bus) ∧ ns = [.accepted emission]

theorem Bus.Serves.promises {b b' : Bus} {e e' : Emission} {ns : List Note}
    (serves : b.Serves e ns e' b') : b.Promises ns := by
  cases serves <;> exact .inl rfl

theorem Activity.Steps.promises {f f' : Floor σ} {a : Activity σ} {ns : List Note}
    {stride : Stride σ} (steps : Activity.Steps f a ns stride f') : f.bus.Promises ns := by
  cases steps with
  | quiet | answered => exact .inl rfl
  | accepted ok => exact .inr ⟨_, _, _, ok, rfl⟩
  | served step => exact step.promises

theorem Exchange.Steps.promises {s s' : Exchange σ} {ns : List Note} (steps : s.Steps ns s') :
    s.bus.Promises ns := by
  cases steps with
  | dispatched found step =>
    cases step with
    | worked post step => exact step.promises
    | failed => exact .inl (idle_all (Bus.idle_failure _ _ _ _ _)).2
    | crashed => exact .inl (idle_all (idle_crash _ _ _)).2
    | took | retired | succeeded => exact .inl rfl
  | worked found step => exact step.promises
  | finished found step => exact step.promises
  | requeued step => cases step <;> exact .inl rfl
  | aborted => exact .inl (idle_all (Dispatcher.idle_abort _)).2
  | truncated => exact .inl (idle_all (idle_discarded _)).2
  | _ => exact .inl rfl

theorem Audit.Steps.promises {s : Audit σ} {ns : List Note} {exchange : Exchange σ}
    {callers : List Emission} (steps : s.Steps ns exchange callers) : s.bus.Promises ns := by
  cases steps with
  | published ok => exact .inr ⟨_, _, _, ok, rfl⟩
  | served found step => exact step.promises
  | moved step => exact step.promises
  | _ => exact .inl rfl

/-! ## Topics -/

/-- Every topic names a subscriber once. -/
def Bus.Orderly (b : Bus) : Prop := ∀ t ∈ b.topics, t.2.Nodup

theorem Bus.nodup_addToTopic {name topic : String} {table : List (String × List String)}
    (orderly : ∀ t ∈ table, t.2.Nodup) : ∀ t ∈ addToTopic name topic table, t.2.Nodup := by
  induction table with
  | nil =>
    intro t ht
    obtain rfl := List.mem_singleton.mp ht
    exact List.nodup_cons.mpr ⟨List.not_mem_nil, List.nodup_nil⟩
  | cons row table ih =>
    obtain ⟨known, names⟩ := row
    have first := orderly _ (List.mem_cons_self ..)
    have others := fun t ht => orderly t (List.mem_cons_of_mem _ ht)
    rw [addToTopic]
    split
    · intro t ht
      rcases List.mem_cons.mp ht with rfl | ht
      · by_cases twice : names.contains name = true
        · simpa only [if_pos twice] using first
        · simp only [if_neg twice]
          refine List.nodup_append.mpr ⟨first, by simp, ?_⟩
          rintro a ha b hb rfl
          exact twice (List.contains_iff_mem.mpr (List.mem_singleton.mp hb ▸ ha))
      · exact others t ht
    · intro t ht
      rcases List.mem_cons.mp ht with rfl | ht
      · exact first
      · exact ih others t ht

theorem Bus.nodup_addToTopics {name : String} {topics : List String}
    {table : List (String × List String)} (orderly : ∀ t ∈ table, t.2.Nodup) :
    ∀ t ∈ topics.foldl (fun table topic => addToTopic name topic table) table, t.2.Nodup := by
  induction topics generalizing table with
  | nil => exact orderly
  | cons topic topics ih => exact ih (nodup_addToTopic orderly)

theorem Bus.Orderly.subscribersOf {b : Bus} (orderly : b.Orderly) (topic : String) :
    (b.subscribersOf topic).Nodup := by
  rw [Bus.subscribersOf]
  cases known : b.topics.lookup topic with
  | none => exact List.nodup_nil
  | some names =>
    obtain ⟨before, after, split, -⟩ := List.lookup_eq_some_iff.mp known
    exact orderly (topic, names) (by simp [split])

namespace Bus

/-- The subscribers of a topic in a table. -/
def subscribersIn (table : List (String × List String)) (topic : String) : List String :=
  (table.lookup topic).getD []

theorem mem_addToTopic {name other topic known : String} {table : List (String × List String)} :
    other ∈ subscribersIn (addToTopic name known table) topic ↔
      other ∈ subscribersIn table topic ∨ other = name ∧ topic = known := by
  induction table with
  | nil =>
    by_cases same : topic = known
    · simp [addToTopic, subscribersIn, same]
    · simp [addToTopic, subscribersIn, List.lookup_cons, beq_eq_false_iff_ne.mpr same, same]
  | cons row table ih =>
    obtain ⟨t, names⟩ := row
    rw [subscribersIn, subscribersIn] at ih ⊢
    rw [addToTopic]
    by_cases here : t = known
    · subst here
      rw [if_pos rfl]
      by_cases same : topic = t
      · by_cases twice : name ∈ names
        · simp only [same, List.lookup_cons_self, Option.getD_some, List.contains_eq_mem, twice,
            decide_true, if_true, and_true]
          constructor
          · exact .inl
          · rintro (old | rfl)
            · exact old
            · exact twice
        · simp [same, twice]
      · simp [List.lookup_cons, beq_eq_false_iff_ne.mpr same, same]
    · rw [if_neg here]
      by_cases same : topic = t
      · subst same
        simp [here]
      · simpa [List.lookup_cons, beq_eq_false_iff_ne.mpr same] using ih

theorem mem_addToTopics {name other topic : String} {topics : List String}
    {table : List (String × List String)} :
    other ∈ subscribersIn (topics.foldl (fun table t => addToTopic name t table) table) topic ↔
      other ∈ subscribersIn table topic ∨ other = name ∧ topic ∈ topics := by
  induction topics generalizing table with
  | nil => simp
  | cons t topics ih =>
    rw [List.foldl_cons, ih, mem_addToTopic, List.mem_cons, or_assoc, ← and_or_left]

end Bus

/-! ## Runs -/

/-- Every delivery that was begun or may be begun was promised, and no delivery was
promised twice. -/
structure Audit.Fair (s : Audit σ) : Prop where
  settled : Settles [] s.history s.toServe
  orderly : s.bus.Orderly
  distinct : (promised s.history).Nodup
  numbered : ∀ k ∈ promised s.history, k.serial < s.bus.stats.emitted

/-- An accepted event promises a delivery to each recipient once, under a new number. -/
theorem Bus.promised_accept {b b' : Bus} {e : Event} {emission : Emission} (orderly : b.Orderly)
    (ok : b.accept e = .ok (emission, b')) :
    (promised [.accepted emission]).Nodup ∧
      ∀ k ∈ promised [.accepted emission], k.serial = b.stats.emitted := by
  obtain ⟨-, rfl, -⟩ := accept_ok ok
  have promises : promised [.accepted ⟨b.stats.emitted, e,
      (b.subscribersOf e.topic).filter e.isFor, none, 0⟩] =
      ((b.subscribersOf e.topic).filter e.isFor).map fun name => ⟨b.stats.emitted, name⟩ := by
    simp [promised, Note.promised, Emission.toServe]
  rw [promises]
  refine ⟨List.Pairwise.map _ (fun _ _ ne same => ne (Parcel.mk.inj same).2)
    ((orderly.subscribersOf e.topic).filter _), ?_⟩
  intro k hk
  obtain ⟨name, -, rfl⟩ := List.mem_map.mp hk
  rfl

namespace Audit

variable {p : Policy} {s : Audit σ} {ns : List Note} {exchange : Exchange σ}
  {callers : List Emission}

theorem emitted_le (st : Stats) (ns : List Note) :
    st.emitted ≤ (ns.foldl Stats.note st).emitted := by
  induction ns generalizing st with
  | nil => exact Nat.le_refl _
  | cons n ns ih =>
    have one : st.emitted ≤ (st.note n).emitted := by cases n <;> simp [Stats.note]
    exact Nat.le_trans one (ih _)

theorem Steps.orderly (steps : s.Steps ns exchange callers) (distinct : s.bus.names.Nodup)
    (orderly : s.bus.Orderly) : exchange.bus.Orderly := by
  cases steps with
  | subscribed running ok =>
    obtain ⟨bus, done, rfl⟩ := Exchange.subscribe_ok ok
    obtain ⟨-, rfl⟩ := Bus.subscribe_ok done
    exact Bus.nodup_addToTopics orderly
  | published ok =>
    obtain ⟨-, -, rfl⟩ := Bus.accept_ok ok
    exact orderly
  | served found step =>
    have topics := (step.books distinct []).topics
    intro t ht
    exact orderly t (topics ▸ ht)
  | moved step =>
    have topics := (step.books distinct).topics
    intro t ht
    exact orderly t (topics ▸ ht)
  | idle | started | answered | touched | shut => exact orderly

theorem fair_fresh (p : Policy) (world : σ) : (fresh p world).Fair where
  settled _ := Nat.le_refl _
  orderly _ ht := nomatch ht
  distinct := List.nodup_nil
  numbered _ hk := nomatch hk

theorem Fair.step (fair : s.Fair) (sound : s.Sound p) (steps : s.Steps ns exchange callers) :
    Fair ⟨exchange, callers, s.history ++ ns⟩ := by
  have after := sound.step steps
  have stats : (exchange.bus).stats = ns.foldl Stats.note s.bus.stats := by
    have counted := after.stats
    rw [List.foldl_append, ← sound.stats] at counted
    exact counted
  have split : promised (s.history ++ ns) = promised s.history ++ promised ns := List.flatMap_append
  have settled := fair.settled.trans (steps.settles (s.history ++ ns))
  have orderly := steps.orderly sound.distinct fair.orderly
  rcases steps.promises with nothing | ⟨e, emission, bus, ok, rfl⟩
  · rw [nothing, List.append_nil] at split
    refine ⟨settled, orderly, split ▸ fair.distinct, ?_⟩
    intro k hk
    have more := emitted_le s.bus.stats ns
    rw [← stats] at more
    exact Nat.lt_of_lt_of_le (fair.numbered k (split ▸ hk)) more
  · obtain ⟨once, numbers⟩ := Bus.promised_accept fair.orderly ok
    have one : (exchange.bus).stats.emitted = s.bus.stats.emitted + 1 := by
      rw [stats]
      rfl
    refine ⟨settled, orderly, ?_, ?_⟩
    · rw [split, List.nodup_append]
      refine ⟨fair.distinct, once, ?_⟩
      rintro k old _ new rfl
      have := fair.numbered k old
      have := numbers k new
      omega
    · intro k hk
      rw [split] at hk
      refine Nat.lt_of_lt_of_eq ?_ one.symm
      rcases List.mem_append.mp hk with old | new
      · exact Nat.lt_succ_of_lt (fair.numbered k old)
      · exact (numbers k new).symm ▸ Nat.lt_succ_self _

theorem fair_play (policy : Policy) (world : σ) (acts : List (Act σ)) :
    (play policy world acts).Fair :=
  (play_induction (P := fun s => s.Sound policy ∧ s.Fair)
    ⟨sound_fresh policy world, fair_fresh policy world⟩
    (fun _ _ _ _ both steps => ⟨both.1.step steps, both.2.step both.1 steps⟩) acts).2

/-- What is to be served was promised, so it is to be served once. -/
theorem Fair.nodup_toServe (fair : s.Fair) : s.toServe.Nodup := by
  rw [List.nodup_iff_count]
  intro k
  have left := fair.settled k
  have once := List.nodup_iff_count.mp fair.distinct k
  rw [List.count_nil] at left
  omega

/-- What was begun was promised, so no delivery is begun twice. -/
theorem Fair.nodup (fair : s.Fair) : (opened s.history).Nodup := by
  rw [List.nodup_iff_count]
  intro k
  have begun := fair.settled k
  have once := List.nodup_iff_count.mp fair.distinct k
  rw [List.count_nil] at begun
  omega

end Audit

end Pipeworks
