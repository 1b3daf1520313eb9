import Pipeworks.Proofs.Bus.Conservation
import Pipeworks.Proofs.Bus.Itinerary

/-!
# Attempts and dead letters

A delivery is attempted with the numbers 1, 2, 3 and so on, never more often than
the policy says, and never again once it has ended. It gets one dead letter at
most, and none if it succeeded. All of this is read off the course of a single
delivery; the number of all attempts comes from the traffic through mailboxes.
-/

namespace Pipeworks

variable {σ : Type} {p : Policy} {k : Parcel} {h ns : List Note} {a b : List (Parcel × Spot)}

/-! ## How a delivery ends -/

/-- The notes that end a delivery. -/
def endings (k : Parcel) (h : List Note) : List Note := h.filter (·.ended = some k)

theorem endings_append (h ns : List Note) : endings k (h ++ ns) = endings k h ++ endings k ns :=
  List.filter_append ..

theorem endings_eq_nil (unended : ∀ n ∈ h, n.ended ≠ some k) : endings k h = [] := by
  rw [endings, List.filter_eq_nil_iff]
  intro n hn
  simpa using unended n hn

/-- A dead letter of a delivery is one of its ends. -/
theorem lettersOf_eq (k : Parcel) (h : List Note) :
    lettersOf k h = (endings k h).filterMap Note.letter := by
  induction h with
  | nil => rfl
  | cons n h ih =>
    simp only [lettersOf, letters, endings] at ih ⊢
    cases hl : n.letter with
    | none =>
      rw [List.filterMap_cons_none hl, ih, List.filter_cons]
      split
      · rw [List.filterMap_cons_none hl]
      · rfl
    | some l =>
      have ended : n.ended = some l.parcel := by
        cases n <;> simp_all [Note.ended, Note.letter, Note.succeeded]
      rw [List.filterMap_cons_some hl, List.filter_cons, List.filter_cons, ended, ih]
      by_cases about : l.parcel = k
      · simp [about, hl]
      · simp [about]

theorem mem_succeeded (hk : k ∈ succeeded h) : ∃ n ∈ endings k h, n.letter = none := by
  obtain ⟨n, hn, won⟩ := List.mem_filterMap.mp hk
  refine ⟨n, List.mem_filter.mpr ⟨hn, ?_⟩, ?_⟩ <;>
    cases n <;> simp_all [Note.succeeded, Note.ended, Note.letter]

/-! ## One delivery -/

/-- How a delivery is attempted, and how it may end. -/
structure Attempted (p : Policy) (k : Parcel) (h : List Note) : Prop where
  /-- The attempts are numbered from 1, without gap or repeat. -/
  numbered : attempts k h = List.range' 1 (attempts k h).length
  bounded : (attempts k h).length ≤ p.maxAttempts
  /-- Once it has ended, it is never heard of again. -/
  final : ∀ before n after, h = before ++ n :: after → n.ended = some k →
    ∀ m ∈ after, m.parcel ≠ some k
  /-- At most one dead letter is recorded. -/
  single : (lettersOf k h).length ≤ 1
  /-- None is recorded if it succeeded. -/
  spared : k ∈ succeeded h → lettersOf k h = []
  /-- A dead letter says how often the delivery was attempted. -/
  stated : ∀ l ∈ lettersOf k h, l.attempts = (attempts k h).length
  /-- A delivery that is given up in a failure has used up its attempts. -/
  usedUp : ∀ l, .gaveUp l ∈ h → l.parcel = k → l.attempts = p.maxAttempts

theorem attempted_of_unended (numbered : attempts k h = List.range' 1 (attempts k h).length)
    (bounded : (attempts k h).length ≤ p.maxAttempts) (unended : ∀ n ∈ h, n.ended ≠ some k) :
    Attempted p k h where
  numbered := numbered
  bounded := bounded
  final before n after split ended := by
    exact absurd ended (unended n (split ▸ List.mem_append_right _ (List.mem_cons_self ..)))
  single := by simp [lettersOf_eq, endings_eq_nil unended]
  spared _ := by simp [lettersOf_eq, endings_eq_nil unended]
  stated := by simp [lettersOf_eq, endings_eq_nil unended]
  usedUp l hl about := absurd (by rw [← about]; rfl) (unended _ hl)

theorem length_attempts {s : Spot} (numbered : attempts k h = List.range' 1 s.begun) :
    (attempts k h).length = s.begun := by
  rw [numbered, List.length_range']

namespace Concluded

variable {before after : List Note} {n : Note} {s : Spot}

theorem attempts_eq (c : Concluded p k h before n after s) : attempts k h = attempts k before := by
  have last : n.attempt k = none := by
    have ends := c.ends
    cases n <;> simp_all [Note.attempt, Note.ended, Note.succeeded, Note.letter, Note.gone]
  have rest : attempts k (n :: after) = [] := by
    rw [attempts, List.filterMap_cons_none last]
    exact attempts_of_silent c.silent
  rw [c.split, attempts_append, rest, List.append_nil]

theorem endings_eq (c : Concluded p k h before n after s) : endings k h = [n] := by
  have later : endings k after = [] :=
    endings_eq_nil fun m hm he => c.silent m hm (Note.parcel_of_ended he)
  have one : endings k (n :: after) = n :: endings k after := by
    rw [endings, List.filter_cons_of_pos (by simpa using c.ends), endings]
  rw [c.split, endings_append, endings_eq_nil c.underWay.unended, one, later]
  rfl

/-- A delivery that has ended did so once. -/
theorem final (c : Concluded p k h before n after s) {before' after' : List Note} {n' : Note}
    (split : h = before' ++ n' :: after') (ended : n'.ended = some k) : after' = after := by
  rw [c.split] at split
  rcases List.append_eq_append_iff.mp split with ⟨mid, here, there⟩ | ⟨mid, here, there⟩
  · cases mid with
    | nil => exact (List.cons.inj there).2.symm
    | cons m mid =>
      -- The other end would come after this one.
      obtain ⟨rfl, rfl⟩ := List.cons.inj there
      exact absurd (Note.parcel_of_ended ended) (c.silent n' (by simp))
  · cases mid with
    | nil => exact (List.cons.inj there).2
    | cons m mid =>
      -- The other end would come before this one.
      obtain ⟨rfl, -⟩ := List.cons.inj there
      exact absurd ended (c.underWay.unended n' (by simp [here]))

theorem letter_attempts (c : Concluded p k h before n after s) {l : DeadLetter}
    (letter : n.letter = some l) : l.attempts = (attempts k h).length := by
  rw [c.attempts_eq, length_attempts c.underWay.numbered]
  have leaves := c.leaves
  cases n <;> simp_all [Note.letter, Note.departure, Spot.begun]
  all_goals
    obtain ⟨-, rfl⟩ := leaves
    rfl

theorem attempted (c : Concluded p k h before n after s) : Attempted p k h where
  numbered := by
    rw [c.attempts_eq, length_attempts c.underWay.numbered]
    exact c.underWay.numbered
  bounded := by
    rw [c.attempts_eq, length_attempts c.underWay.numbered]
    exact Spot.begun_le c.underWay.allowed
  final before' n' after' split ended := by
    rw [c.final split ended]
    exact c.silent
  single := by
    rw [lettersOf_eq, c.endings_eq]
    exact List.length_filterMap_le ..
  spared won := by
    obtain ⟨m, hm, none⟩ := mem_succeeded won
    rw [c.endings_eq] at hm
    obtain rfl := List.mem_singleton.mp hm
    rw [lettersOf_eq, c.endings_eq, List.filterMap_cons_none none]
    rfl
  stated l hl := by
    rw [lettersOf_eq, c.endings_eq] at hl
    obtain ⟨m, hm, letter⟩ := List.mem_filterMap.mp hl
    obtain rfl := List.mem_singleton.mp hm
    exact c.letter_attempts letter
  usedUp l hl about := by
    have ended : Note.gaveUp l ∈ endings k h :=
      List.mem_filter.mpr ⟨hl, by rw [← about]; exact decide_eq_true rfl⟩
    rw [c.endings_eq] at ended
    obtain rfl := List.mem_singleton.mp ended
    have low : p.maxAttempts ≤ l.attempts := c.lawful
    have high := c.underWay.allowed
    obtain ⟨-, rfl⟩ := Prod.mk.inj (Option.some.inj c.leaves)
    exact Nat.le_antisymm high.2 low

end Concluded

theorem Course.attempted (c : Course p k h a) : Attempted p k h := by
  cases c with
  | unopened nowhere silent =>
    have none := attempts_of_silent silent
    refine attempted_of_unended (by rw [none]; rfl) (by rw [none]; exact Nat.zero_le _) ?_
    intro n hn ended
    exact silent n hn (Note.parcel_of_ended ended)
  | underWay s here known course =>
    have length := length_attempts course.numbered
    refine attempted_of_unended (by rw [length, course.numbered]) ?_ course.unended
    rw [length]
    exact Spot.begun_le course.allowed
  | concluded before n after s nowhere known course => exact course.attempted

/-- A delivery that is found in a spot has made as many attempts as the policy allows
there. -/
theorem Course.allowed {s : Spot} (c : Course p k h a) (found : (k, s) ∈ a) : s.Allowed p := by
  have here : s ∈ spots k a := List.mem_filterMap.mpr ⟨(k, s), found, if_pos rfl⟩
  cases c with
  | unopened nowhere => simp [nowhere] at here
  | underWay t only known course =>
    rw [only] at here
    obtain rfl := List.mem_singleton.mp here
    exact course.allowed
  | concluded before n after t nowhere => simp [nowhere] at here

/-! ## All attempts -/

/-- What comes into mailboxes was begun or is counted as retried. -/
theorem crowd_arrivals (h : List Note) (st : Stats) :
    crowd Spot.isWaiting (h.filterMap Note.arrival) + st.retried =
      (opened h).length + (h.foldl Stats.note st).retried := by
  induction h generalizing st with
  | nil => rfl
  | cons n h ih =>
    have one : crowd Spot.isWaiting n.arrival.toList + st.retried =
        n.opened.toList.length + (st.note n).retried := by
      cases n <;> simp [crowd, Note.arrival, Note.opened, Stats.note, Spot.isWaiting]
      omega
    have rest := ih (st.note n)
    simp only [crowd, opened, filterMap_cons_toList, List.countP_append, List.length_append,
      List.foldl_cons] at one rest ⊢
    omega

/-- What leaves mailboxes is attempted, or was in the mailbox of a subscriber that
panicked. -/
theorem crowd_departures (h : List Note) :
    crowd Spot.isWaiting (h.filterMap Note.departure) = (tried h).length + (spilled h).length := by
  induction h with
  | nil => rfl
  | cons n h ih =>
    have one : crowd Spot.isWaiting n.departure.toList =
        n.tried.toList.length + n.spilled.toList.length := by
      cases n <;> rfl
    simp only [crowd, tried, spilled, filterMap_cons_toList, List.countP_append,
      List.length_append] at one ih ⊢
    omega

theorem spilled_append (h ns : List Note) : spilled (h ++ ns) = spilled h ++ spilled ns :=
  List.filterMap_append

theorem spilled_of_gone (nothing : gone ns = []) : spilled ns = [] := by
  rw [spilled, List.filterMap_eq_nil_iff]
  rw [gone, List.filterMap_eq_nil_iff] at nothing
  intro n hn
  have stays := nothing n hn
  cases n <;> simp_all [Note.spilled, Note.gone]

/-- Only a panic spills a mailbox. -/
theorem Exchange.Steps.spilled {s s' : Exchange σ} (steps : s.Steps ns s') (calm : s'.isCalm) :
    spilled ns = [] := by
  cases steps with
  | dispatched found step =>
    exact spilled_of_gone (step.calm (isCalm_iff.mp calm _ (mem_set found _))).2
  | worked found step | finished found step => exact spilled_of_gone step.gone
  | requeued step => cases step <;> rfl
  | aborted =>
    rw [Dispatcher.abortNotes]
    split <;> rfl
  | truncated => exact filterMap_discarded (fun _ => rfl) s.bus.retries
  | _ => rfl

namespace Audit

theorem Steps.spilled {s : Audit σ} {exchange : Exchange σ} {callers : List Emission}
    (steps : s.Steps ns exchange callers) (calm : exchange.isCalm) : spilled ns = [] := by
  cases steps with
  | served found step => exact spilled_of_gone step.gone
  | moved step => exact step.spilled calm
  | _ => rfl

theorem spilled_play (policy : Policy) (world : σ) (acts : List (Act σ)) :
    (play policy world acts).exchange.isCalm → spilled (play policy world acts).history = [] := by
  refine play_induction (P := fun s => s.exchange.isCalm → spilled s.history = [])
    (fun _ => rfl) ?_ acts
  intro s ns exchange callers ih steps calm
  rw [spilled_append, ih (steps.calm calm), steps.spilled calm, List.append_nil]

theorem maxAttempts_pos {policy : Policy} (valid : policy.check = .ok ()) :
    1 ≤ policy.maxAttempts := by
  rw [Policy.check] at valid
  split at valid
  · simp at valid
  · omega

theorem mem_keep {p : Policy} {ls kept : List DeadLetter} {l : DeadLetter}
    (hl : l ∈ ls.foldl (Bus.keep p) kept) : l ∈ kept ++ ls := by
  induction ls generalizing kept with
  | nil => simpa using hl
  | cons first rest ih =>
    have hl := ih hl
    rcases List.mem_append.mp hl with hl | hl
    · have known : l ∈ kept ++ [first] := by
        rw [Bus.keep] at hl
        split at hl
        · rcases List.mem_append.mp hl with hl | hl
          · exact List.mem_append_left _ (List.mem_of_mem_tail hl)
          · exact List.mem_append_right _ hl
        · exact hl
      simpa using List.mem_append_left rest known
    · exact List.mem_append_right _ (List.mem_cons_of_mem _ hl)

/-- After any schedule every delivery has been attempted as the policy says and has at
most one dead letter; the pending retries have attempts left; and what was attempted or
waits in a mailbox was begun or is counted as retried, unless a subscriber panicked. -/
theorem attempts_bounded_and_buried_once (policy : Policy) (valid : policy.check = .ok ())
    (world : σ) (acts : List (Act σ)) :
    let s := play policy world acts
    (∀ k, Attempted policy k s.history) ∧
    (∀ l ∈ s.bus.deadLetters, l ∈ letters s.history) ∧
    (∀ r ∈ s.bus.retries ++ s.bus.requeuing, 1 ≤ r.attempts ∧ r.attempts < policy.maxAttempts ∧
      (policy.maxAttempts ≤ Count.limit .maxAttempts →
        r.attempts + 1 ≤ Count.limit .maxAttempts)) ∧
    (s.exchange.isCalm → (tried s.history).length + s.bus.waiting.length =
      (opened s.history).length + s.bus.stats.retried) := by
  intro s
  have sound : s.Sound policy := sound_play policy world acts
  have once : (opened s.history).Nodup := (fair_play policy world acts).nodup
  have course := sound.posts.course (maxAttempts_pos valid) once
  refine ⟨fun k => (course k).attempted, ?_, ?_, ?_⟩
  · intro l hl
    rw [sound.letters] at hl
    simpa using mem_keep hl
  · intro r hr
    have found : r.copy ∈ s.exchange.placed := by
      refine List.mem_append_right _ (List.mem_append_right _ (List.mem_append_left _ ?_))
      rw [← List.map_append]
      exact List.mem_map.mpr ⟨r, hr, rfl⟩
    obtain ⟨low, high⟩ : Spot.Allowed policy (.pending r.attempts) :=
      (course r.parcel).allowed found
    exact ⟨low, high, fun fits => Nat.le_trans high fits⟩
  · intro calm
    have traffic := sound.posts.traffic Spot.isWaiting
    have arrivals := crowd_arrivals s.history Stats.zero
    have departures := crowd_departures s.history
    have kept : spilled s.history = [] := spilled_play policy world acts calm
    have here : crowd Spot.isWaiting s.exchange.placed = 0 + (s.bus.waiting.length + 0) := by
      rw [s.exchange.crowd_placed true false false (fun _ => rfl) (fun _ => rfl) (fun _ => rfl)]
      rfl
    rw [← sound.stats] at arrivals
    rw [kept, List.length_nil] at departures
    simp only [crowd, List.countP_nil, Stats.zero] at traffic arrivals departures here
    omega

/-- With a single attempt the subscriber that fails in the trial gets its first delivery
given up. -/
theorem trial_buried_once :
    Policy.check { Policy.standard with maxAttempts := 1 } = .ok () ∧
    Attempted { Policy.standard with maxAttempts := 1 } ⟨0, "down"⟩
      (play { Policy.standard with maxAttempts := 1 } () trial).history ∧
    (play { Policy.standard with maxAttempts := 1 } () trial).bus.stats.deadLettered = 1 :=
  ⟨rfl, (attempts_bounded_and_buried_once _ rfl () trial).1 _, rfl⟩

end Audit

end Pipeworks
