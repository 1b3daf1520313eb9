import Mathlib.Data.List.Induction
import Mathlib.Data.List.TakeWhile
import Pipeworks.Proofs.Bus.Conservation
import Pipeworks.Proofs.Bus.Recipients

/-!
# Who has subscribed to what

A schedule makes subscriptions until the bus shuts down. Those that are accepted are on its roll: the
first one of each name. The bus keeps the roll in two tables, the mailboxes and the topics, and these
agree with it after any schedule.
-/

namespace Pipeworks

variable {σ : Type}

/-- Take a subscription in, unless its name is taken. -/
def enrol (roll : List (String × List String)) (name : String) (topics : List String) :
    List (String × List String) :=
  if name ∈ roll.map Prod.fst then roll else roll ++ [(name, topics)]

namespace Act

def isShutdown : Act σ → Bool
  | .shutdown => true
  | _ => false

/-- What an act does to the roll as long as the bus runs. -/
def enrol (roll : List (String × List String)) : Act σ → List (String × List String)
  | .subscribe name topics _ => Pipeworks.enrol roll name topics
  | _ => roll

end Act

/-- The accepted subscriptions of a schedule, each with its topics, the earliest first. None is accepted
if mailboxes are to have more room than there can be. -/
def roll (policy : Policy) (acts : List (Act σ)) : List (String × List String) :=
  if max policy.queueCapacity 1 ≤ maxRoom then
    (acts.takeWhile (!·.isShutdown)).foldl Act.enrol []
  else []

/-- The subscribers on a roll that an event is for: the event's topic is on their list, and they are its
target if it has one. -/
def addressees (roll : List (String × List String)) (e : Event) : List String :=
  (roll.filter fun r => e.topic ∈ r.2 ∧ (e.target = none ∨ e.target = some r.1)).map Prod.fst

theorem roll_nil (policy : Policy) : roll policy ([] : List (Act σ)) = [] := by
  rw [roll]
  split <;> rfl

theorem roll_concat (policy : Policy) (acts : List (Act σ)) (a : Act σ) :
    roll policy (acts ++ [a]) =
      if acts.any Act.isShutdown = false ∧ max policy.queueCapacity 1 ≤ maxRoom then
        a.enrol (roll policy acts)
      else roll policy acts := by
  have all : acts.any Act.isShutdown = false ↔ acts.takeWhile (!·.isShutdown) = acts := by
    simp [List.takeWhile_eq_self_iff]
  rw [roll, roll]
  by_cases room : max policy.queueCapacity 1 ≤ maxRoom
  · simp only [if_pos room]
    by_cases running : acts.any Act.isShutdown = false
    · have whole := all.mp running
      rw [if_pos ⟨running, room⟩, List.takeWhile_append, if_pos (congrArg List.length whole), whole,
        List.foldl_append]
      cases a <;> rfl
    · have short : (acts.takeWhile (!·.isShutdown)).length ≠ acts.length := fun same =>
        running (all.mpr ((List.takeWhile_prefix _).eq_of_length same))
      rw [if_neg (fun both => running both.1), List.takeWhile_append, if_neg short]
  · simp [room]

theorem nodup_enrol {roll : List (String × List String)} (nodup : (roll.map Prod.fst).Nodup)
    (name : String) (topics : List String) : ((enrol roll name topics).map Prod.fst).Nodup := by
  rw [enrol]
  split
  · exact nodup
  · rename_i fresh
    rw [List.map_append, List.nodup_append]
    refine ⟨nodup, by simp, ?_⟩
    rintro a ha b hb rfl
    obtain rfl : a = name := by simpa using hb
    exact fresh ha

theorem nodup_roll (policy : Policy) (acts : List (Act σ)) :
    ((roll policy acts).map Prod.fst).Nodup := by
  induction acts using List.reverseRecOn with
  | nil =>
    rw [roll_nil]
    exact .nil
  | append_singleton acts a ih =>
    rw [roll_concat]
    split
    · cases a with
      | subscribe name topics deliver => exact nodup_enrol ih name topics
      | _ => exact ih
    · exact ih

theorem addressees_sublist (rows : List (String × List String)) (e : Event) :
    (addressees rows e).Sublist (rows.map Prod.fst) :=
  List.filter_sublist.map _

/-! ## The table of topics -/

namespace Bus

theorem subscribersIn_addToTopic (name known topic : String) (table : List (String × List String)) :
    subscribersIn (addToTopic name known table) topic =
      if topic = known ∧ name ∉ subscribersIn table topic then subscribersIn table topic ++ [name]
      else subscribersIn table topic := by
  induction table with
  | nil =>
    by_cases same : topic = known
    · simp [addToTopic, subscribersIn, same]
    · simp [addToTopic, subscribersIn, List.lookup_cons, beq_eq_false_iff_ne.mpr same, same]
  | cons row table ih =>
    obtain ⟨t, names⟩ := row
    rw [subscribersIn, subscribersIn] at ih ⊢
    rw [addToTopic]
    by_cases here : t = known
    · subst here
      rw [if_pos rfl]
      by_cases same : topic = t
      · by_cases twice : name ∈ names <;> simp [same, twice]
      · simp [List.lookup_cons, beq_eq_false_iff_ne.mpr same, same]
    · rw [if_neg here]
      by_cases same : topic = t
      · subst same
        simp [here]
      · simpa [List.lookup_cons, beq_eq_false_iff_ne.mpr same] using ih

/-- A subscriber comes last on each of its topics, once, however often the topic is listed. -/
theorem subscribersIn_addToTopics (name topic : String) (topics : List String)
    (table : List (String × List String)) :
    subscribersIn (topics.foldl (fun table t => addToTopic name t table) table) topic =
      if topic ∈ topics ∧ name ∉ subscribersIn table topic then subscribersIn table topic ++ [name]
      else subscribersIn table topic := by
  induction topics generalizing table with
  | nil => simp
  | cons t topics ih =>
    rw [List.foldl_cons, ih, subscribersIn_addToTopic]
    by_cases twice : name ∈ subscribersIn table topic
    · simp [twice]
    · by_cases first : topic = t
      · subst first
        simp [twice]
      · simp [first]

end Bus

/-! ## Acts -/

/-- Only an act that shuts the bus down makes it stop running. -/
theorem Exchange.Steps.isRunning_eq {s s' : Exchange σ} {ns : List Note} (steps : s.Steps ns s') :
    s'.isRunning = s.isRunning := by
  cases steps with
  | closed _ closing | joined _ _ _ closing | aborted _ _ _ closing | truncated _ _ _ closing
  | drained _ _ _ _ closing => simp [isRunning, truncate, closing]
  | _ => rfl

namespace Audit

variable {p : Policy} {s : Audit σ} {rows : List (String × List String)}

/-- Two audits with the same tables, of which both run or neither does. -/
structure Alike (s s' : Audit σ) : Prop where
  names : s'.bus.names = s.bus.names
  topics : s'.bus.topics = s.bus.topics
  running : s'.exchange.isRunning = s.exchange.isRunning

theorem Alike.refl (s : Audit σ) : Alike s s := ⟨rfl, rfl, rfl⟩

/-- Only a subscription changes the tables. -/
theorem Sound.alike (sound : s.Sound p) {a : Act σ}
    (other : ∀ name topics deliver, a ≠ .subscribe name topics deliver)
    (going : a.isShutdown = false) : Alike s (s.act a) := by
  cases a with
  | subscribe name topics deliver => exact absurd rfl (other name topics deliver)
  | shutdown => simp [Act.isShutdown] at going
  | start =>
    simp only [act]
    split
    · exact ⟨rfl, rfl, rfl⟩
    · exact .refl s
  | publish e =>
    simp only [act, publish]
    split
    · rename_i ok
      obtain ⟨-, -, rfl⟩ := Bus.accept_ok ok
      exact ⟨rfl, rfl, rfl⟩
    · exact .refl s
  | serve i =>
    simp only [act, serve]
    split
    · exact .refl s
    · split
      · exact ⟨rfl, rfl, rfl⟩
      · split
        · exact .refl s
        · rename_i step
          have books := (Bus.serves_of_emitStep? step).books sound.distinct []
          exact ⟨books.names, books.topics, rfl⟩
  | touch f => exact ⟨rfl, rfl, rfl⟩
  | move m =>
    simp only [act, move]
    split
    · exact .refl s
    · rename_i step
      have steps := Exchange.steps_of_step? step
      have books := steps.books sound.distinct
      exact ⟨books.names, books.topics, steps.isRunning_eq⟩

/-- While the bus runs, every mailbox is found. -/
theorem Sound.isLive_iff (sound : s.Sound p) (running : s.exchange.isRunning) (name : String) :
    s.bus.isLive name = true ↔ name ∈ s.bus.names := by
  constructor
  · intro live
    rw [Bus.isLive] at live
    cases known : s.bus.mailbox? name with
    | none => simp [known] at live
    | some m =>
      obtain ⟨before, after, split, -⟩ := List.lookup_eq_some_iff.mp known
      simp [Bus.names, split]
  · intro known
    by_contra dead
    exact sound.unknown running (by simpa using dead) known

/-! ## Runs -/

/-- The bus runs until the first act that shuts it down. -/
theorem isRunning_play (policy : Policy) (world : σ) (acts : List (Act σ)) :
    (play policy world acts).exchange.isRunning = !acts.any Act.isShutdown := by
  induction acts using List.reverseRecOn with
  | nil => rfl
  | append_singleton acts a ih =>
    have sound : (play policy world acts).Sound policy := sound_play policy world acts
    rw [play_concat, List.any_append, Bool.not_or, ← ih]
    generalize play policy world acts = s at sound
    cases a with
    | shutdown =>
      rw [show (List.any [Act.shutdown] Act.isShutdown : Bool) = true from rfl, Bool.not_true,
        Bool.and_false]
      simp only [act]
      split
      · rfl
      · rename_i stopped
        simpa using stopped
    | subscribe name topics deliver =>
      refine Eq.trans ?_ (Bool.and_true _).symm
      simp only [act, subscribe]
      split
      · split
        · rename_i ok
          obtain ⟨bus, -, rfl⟩ := Exchange.subscribe_ok ok
          rfl
        · rfl
      · rfl
    | _ => exact (sound.alike (by simp) rfl).running.trans (Bool.and_true _).symm

/-- The tables of a bus agree with a roll. -/
structure Enrolled (roll : List (String × List String)) (s : Audit σ) : Prop where
  names : s.bus.names = roll.map Prod.fst
  topics : ∀ topic, s.bus.subscribersOf topic = (roll.filter (topic ∈ ·.2)).map Prod.fst

theorem Enrolled.keep {s' : Audit σ} (enrolled : s.Enrolled rows) (names : s'.bus.names = s.bus.names)
    (topics : s'.bus.topics = s.bus.topics) : s'.Enrolled rows where
  names := names.trans enrolled.names
  topics topic := by rw [Bus.subscribersOf, topics, ← enrolled.topics topic, Bus.subscribersOf]

/-- Of the subscribers of its topic, an event is for its target, or for all of them. -/
theorem Enrolled.recipients (enrolled : s.Enrolled rows) (e : Event) :
    (s.bus.subscribersOf e.topic).filter e.isFor = addressees rows e := by
  have target (name : String) :
      e.isFor name = decide (e.target = none ∨ e.target = some name) := by
    rw [Event.isFor]
    cases e.target with
    | none => simp
    | some t => exact Bool.eq_iff_iff.mpr (by simp)
  rw [enrolled.topics, List.filter_map, List.filter_filter, addressees]
  congr 2
  funext r
  rw [Function.comp_apply, target, Bool.decide_and, Bool.and_comm]

/-- A name that is on the roll is refused, and nothing changes. -/
theorem Enrolled.refused (enrolled : s.Enrolled rows) (sound : s.Sound p)
    (running : s.exchange.isRunning) {name : String} (known : name ∈ rows.map Prod.fst)
    (topics : List String) (deliver : Event → Work σ) :
    s.exchange.subscribe name topics deliver = .failed (.config (.subscribedTwice name)) ∧
      s.act (.subscribe name topics deliver) = s := by
  have live : s.bus.isLive name = true := (sound.isLive_iff running name).mpr (enrolled.names ▸ known)
  have done : s.exchange.bus.subscribe name topics = .failed (.config (.subscribedTwice name)) :=
    if_pos live
  have refused : s.exchange.subscribe name topics deliver =
      .failed (.config (.subscribedTwice name)) := by
    rw [Exchange.subscribe, done]
    rfl
  exact ⟨refused, by simp only [act, subscribe, refused, ite_self]⟩

/-- A new name comes last on the roll, if there is room for its mailbox. -/
theorem Enrolled.subscribe (enrolled : s.Enrolled rows) (sound : s.Sound p)
    (running : s.exchange.isRunning) {name : String} (fresh : name ∉ rows.map Prod.fst)
    (topics : List String) (deliver : Event → Work σ) :
    (s.act (.subscribe name topics deliver)).Enrolled
      (if max p.queueCapacity 1 ≤ maxRoom then rows ++ [(name, topics)] else rows) := by
  have dead : ¬s.bus.isLive name = true := by
    rw [sound.isLive_iff running, enrolled.names]
    exact fresh
  have capacity : s.exchange.bus.capacity = max p.queueCapacity 1 :=
    congrArg (max ·.queueCapacity 1) sound.policy
  have done : s.exchange.bus.subscribe name topics = (reserve s.exchange.bus.capacity).map _ :=
    if_neg dead
  rw [capacity, reserve] at done
  simp only [act, Audit.subscribe, if_pos running, Exchange.subscribe, done]
  by_cases room : max p.queueCapacity 1 ≤ maxRoom
  · simp only [if_pos room, Outcome.map]
    refine ⟨?_, fun topic => ?_⟩
    · rw [List.map_append, ← enrolled.names]
      exact List.map_append
    · have after := Bus.subscribersIn_addToTopics name topic topics s.bus.topics
      rw [show Bus.subscribersIn s.bus.topics topic = _ from enrolled.topics topic] at after
      have absent : name ∉ (rows.filter (topic ∈ ·.2)).map Prod.fst := by
        intro known
        obtain ⟨r, hr, rfl⟩ := List.mem_map.mp known
        exact fresh (List.mem_map.mpr ⟨r, (List.mem_filter.mp hr).1, rfl⟩)
      refine Eq.trans after ?_
      rw [List.filter_append, List.map_append]
      by_cases listed : topic ∈ topics
      · rw [if_pos ⟨listed, absent⟩, List.filter_cons_of_pos (by simpa using listed)]
        rfl
      · rw [if_neg (fun both => listed both.1), List.filter_cons_of_neg (by simpa using listed)]
        exact (List.append_nil _).symm
  · simp only [if_neg room, Outcome.map]
    exact enrolled

/-- After any schedule the tables of the bus agree with the roll. -/
theorem enrolled_play (policy : Policy) (world : σ) (acts : List (Act σ)) :
    (play policy world acts).Enrolled (roll policy acts) := by
  induction acts using List.reverseRecOn with
  | nil =>
    rw [roll_nil]
    exact ⟨rfl, fun _ => rfl⟩
  | append_singleton acts a ih =>
    have sound : (play policy world acts).Sound policy := sound_play policy world acts
    have running := isRunning_play policy world acts
    rw [play_concat, roll_concat]
    generalize play policy world acts = s at sound running ih
    have alike := sound.alike (a := a)
    cases a with
    | subscribe name topics deliver =>
      cases going : acts.any Act.isShutdown with
      | true =>
        have refused : s.act (.subscribe name topics deliver) = s := by
          simp only [act, subscribe, running, going, Bool.not_true, Bool.false_eq_true, if_false]
        rw [if_neg (by simp), refused]
        exact ih
      | false =>
        have running : s.exchange.isRunning = true := by rw [running, going, Bool.not_false]
        simp only [true_and, Act.enrol, enrol]
        by_cases known : name ∈ (roll policy acts).map Prod.fst
        · rw [if_pos known, ite_self, (ih.refused sound running known topics deliver).2]
          exact ih
        · rw [if_neg known]
          exact ih.subscribe sound running known topics deliver
    | shutdown =>
      simp only [Act.enrol, ite_self, act]
      split <;> exact ih.keep rfl rfl
    | _ =>
      simp only [Act.enrol, ite_self]
      have same := alike (by simp) rfl
      exact ih.keep same.names same.topics

end Audit

end Pipeworks
