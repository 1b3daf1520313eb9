import Pipeworks.Proofs.Bus.Itinerary
import Pipeworks.Proofs.Bus.Calls
import Pipeworks.Proofs.Bus.Staff
import Pipeworks.Proofs.Bus.Line

/-!
# Producers

A producer that publishes its events one after another does not publish the next before the
call for the last one was answered, and an answered call puts nothing into mailboxes any more.
So the deliveries of its events enter each mailbox in the order of their numbers, and, with the
order of the line, each subscriber begins with them in that order.
-/

namespace Pipeworks

variable {σ : Type}

/-- The events with some numbers were published one after another: each was accepted only
when all those accepted before it had been answered. -/
def OneByOne (mine : Nat → Bool) (h : List Note) : Prop :=
  ∀ before e after, h = before ++ .accepted e :: after → mine e.serial →
    ∀ e' ∈ accepted before, mine e'.serial → e'.serial ∈ answered before

/-- Whether a note that comes after others follows the rule for one producer. -/
def isFollowing (mine : Nat → Bool) (before : List Note) : Note → Bool
  | .accepted e => !mine e.serial || (accepted before).all fun e' =>
      !mine e'.serial || (answered before).contains e'.serial
  | _ => true

/-- Whether the events with some numbers are published one after another in the notes that come
after others. -/
def isOneByOne (mine : Nat → Bool) (before : List Note) : List Note → Bool
  | [] => true
  | n :: rest => isFollowing mine before n && isOneByOne mine (before ++ [n]) rest

theorem OneByOne.of_check {mine : Nat → Bool} {h : List Note} (check : isOneByOne mine [] h = true) :
    OneByOne mine h := by
  suffices general : ∀ past h, isOneByOne mine past h = true → ∀ before e after,
      h = before ++ .accepted e :: after → mine e.serial →
      ∀ e' ∈ accepted (past ++ before), mine e'.serial → e'.serial ∈ answered (past ++ before) from
    general [] h check
  intro past h check before
  induction before generalizing past h with
  | nil =>
    rintro e after rfl own e' he' too
    rw [List.nil_append, isOneByOne, Bool.and_eq_true, isFollowing] at check
    rw [List.append_nil] at he' ⊢
    have all := check.1
    rw [own, Bool.not_true, Bool.false_or, List.all_eq_true] at all
    simpa [too] using all e' he'
  | cons n before ih =>
    rintro e after rfl
    rw [List.cons_append, isOneByOne, Bool.and_eq_true] at check
    rw [← List.singleton_append, ← List.append_assoc]
    exact ih (past ++ [n]) _ check.2 e after rfl

theorem OneByOne.earlier {mine : Nat → Bool} {h ns : List Note} (alone : OneByOne mine (h ++ ns)) :
    OneByOne mine h := by
  intro before e after split
  exact alone before e (after ++ ns) (by rw [split, List.append_assoc, List.cons_append])

namespace Audit

variable {p : Policy} {s : Audit σ} {ns : List Note} {exchange : Exchange σ}
  {callers : List Emission}

/-- What was accepted before an event has the smaller numbers, all of them. -/
theorem Called.earlier (called : s.Called) {before after : List Note} {e : Emission}
    (split : s.history = before ++ .accepted e :: after) :
    (accepted before).map (·.serial) = List.range e.serial := by
  have numbered := called.numbered
  have parts : accepted s.history = accepted before ++ e :: accepted after := by
    rw [split, accepted_append]
    rfl
  rw [parts, List.map_append, List.map_cons] at numbered
  rw [List.range_eq_range'] at numbered
  obtain ⟨k, -, first, rest⟩ := List.range'_eq_append_iff.mp numbered.symm
  obtain ⟨start, -, -⟩ := List.range'_eq_cons_iff.mp rest.symm
  rw [first, List.range_eq_range', show k = e.serial by omega]

/-- Of the events of one producer, one is put into a mailbox only after those with smaller
numbers: the next was accepted after the publisher of this one was answered. -/
theorem Called.later (called : s.Called) {mine : Nat → Bool} (alone : OneByOne mine s.history)
    {e : Emission} (he : e ∈ s.calls) (own : mine e.serial) {d : Delivery}
    (hd : d ∈ s.history.filterMap Note.entry) (too : mine d.serial) : d.serial ≤ e.serial := by
  by_contra later
  obtain ⟨e₀, he₀, serial, -⟩ := called.entered d hd
  obtain ⟨e₁, he₁, same, -⟩ := called.known e he
  obtain ⟨n, hn, is⟩ := List.mem_filterMap.mp he₀
  obtain rfl : n = .accepted e₀ := by cases n <;> simp_all [Note.acceptance]
  obtain ⟨before, after, split⟩ := List.append_of_mem hn
  have first : e.serial ∈ (accepted before).map (·.serial) := by
    rw [called.earlier split, List.mem_range]
    omega
  obtain ⟨e', he', number⟩ := List.mem_map.mp first
  have told := alone before e₀ after split (serial ▸ too) e' he' (number ▸ own)
  refine called.unanswered he ?_
  rw [split, answered_append, ← number]
  exact List.mem_append_left _ told

theorem entry_of_queuedFor {name : String} {h : List Note} {d : Delivery}
    (hd : d ∈ queuedFor name h) :
    d ∈ h.filterMap Note.entry ∧ d.parcel name ∈ opened h := by
  obtain ⟨n, hn, entered⟩ := List.mem_filterMap.mp hd
  cases n with
  | queued other x =>
    simp only [Note.entryFor, Option.ite_none_right_eq_some, Option.some.injEq] at entered
    obtain ⟨rfl, rfl⟩ := entered
    exact ⟨List.mem_filterMap.mpr ⟨_, hn, rfl⟩, List.mem_filterMap.mpr ⟨_, hn, rfl⟩⟩
  | _ => simp [Note.entryFor] at entered

/-- What a step puts into mailboxes is nothing, or one delivery of an emission under way. -/
theorem queuedFor_emits {b : Bus} {before after : List Emission} (emits : b.Emits before ns after)
    (name : String) : queuedFor name ns = [] ∨
      ∃ e ∈ before, ∃ d, queuedFor name ns = [d] ∧ d.serial = e.serial ∧ d.parcel name ∈ opened ns := by
  cases emits with
  | quiet silent =>
    refine .inl (List.filterMap_eq_nil_iff.mpr fun n hn => ?_)
    have quiet := silent n hn
    cases n <;> simp_all [Note.isCall, Note.entryFor]
  | accepted | answered => exact .inl rfl
  | @served e ns e' bus' after rest step one next =>
    cases step with
    | put other m =>
      by_cases own : other = name
      · refine .inr ⟨e, one.mem_iff.mpr (List.mem_cons_self ..),
          ⟨e.serial, e.event, 1, none⟩, ?_, rfl, ?_⟩
        · simp [queuedFor, Note.entryFor, own]
        · simp [opened, Note.opened, own, Delivery.parcel]
      · exact .inl (by simp [queuedFor, Note.entryFor, own])
    | _ => exact .inl rfl

/-- The deliveries of one producer that were queued for a subscriber. -/
def queuedOf (mine : Nat → Bool) (name : String) (h : List Note) : List Delivery :=
  (queuedFor name h).filter (mine ·.serial)

/-- The deliveries of one producer that a subscriber began to handle for the first time. -/
def firstTriesOf (mine : Nat → Bool) (name : String) (h : List Note) : List Delivery :=
  (firstTries name h).filter (mine ·.serial)

/-- What is put into a mailbox of one producer's emissions has a greater number than what was. -/
theorem Called.above (called : s.Called) {mine : Nat → Bool} (alone : OneByOne mine s.history)
    (distinct : (opened (s.history ++ ns)).Nodup) {e : Emission} (he : e ∈ s.calls) {d : Delivery}
    (serial : d.serial = e.serial) (own : mine d.serial) {name : String}
    (opens : d.parcel name ∈ opened ns) {x : Delivery} (hx : x ∈ queuedOf mine name s.history) :
    x.serial < d.serial := by
  obtain ⟨hx, too⟩ := List.mem_filter.mp hx
  obtain ⟨entered, known⟩ := entry_of_queuedFor hx
  have le : x.serial ≤ e.serial := called.later alone he (serial ▸ own) entered too
  have ne : x.serial ≠ d.serial := by
    intro same
    have parcel : x.parcel name = d.parcel name := by rw [Delivery.parcel, same, Delivery.parcel]
    rw [opened_append] at distinct
    exact (List.nodup_append.mp distinct).2.2 _ known _ opens parcel
  omega

theorem Called.sorted (called : s.Called) {mine : Nat → Bool} (alone : OneByOne mine s.history)
    (steps : s.Steps ns exchange callers) (distinct : (opened (s.history ++ ns)).Nodup)
    {name : String} (before : ((queuedOf mine name s.history).map (·.serial)).Pairwise (· < ·)) :
    ((queuedOf mine name (s.history ++ ns)).map (·.serial)).Pairwise (· < ·) := by
  have split : queuedOf mine name (s.history ++ ns) =
      queuedOf mine name s.history ++ (queuedFor name ns).filter (mine ·.serial) := by
    rw [queuedOf, queuedFor_append, List.filter_append, queuedOf]
  rw [split]
  rcases queuedFor_emits (steps.emits s.history) name with nothing | ⟨e, he, d, one, serial, opens⟩
  · rw [nothing, List.filter_nil, List.append_nil]
    exact before
  · rw [one]
    by_cases own : mine d.serial
    · rw [List.filter_cons_of_pos (by exact own), List.filter_nil, List.map_append, List.map_singleton,
        List.pairwise_append]
      refine ⟨before, List.pairwise_singleton .., fun k hk k' hk' => ?_⟩
      obtain rfl := List.mem_singleton.mp hk'
      obtain ⟨x, hx, rfl⟩ := List.mem_map.mp hk
      exact called.above alone distinct he serial own opens hx
    · rw [List.filter_cons_of_neg (by exact own), List.filter_nil, List.append_nil]
      exact before

theorem sorted_play (policy : Policy) (world : σ) (acts : List (Act σ)) (name : String)
    (mine : Nat → Bool) (alone : OneByOne mine (play policy world acts).history) :
    ((queuedOf mine name (play policy world acts).history).map (·.serial)).Pairwise (· < ·) := by
  refine (play_induction (P := fun s => (s.Sound policy ∧ s.Fair ∧ s.Called) ∧
    (OneByOne mine s.history → ((queuedOf mine name s.history).map (·.serial)).Pairwise (· < ·)))
    ⟨⟨sound_fresh policy world, fair_fresh policy world, called_fresh policy world⟩,
      fun _ => .nil⟩ ?_ acts).2 alone
  rintro s ns exchange callers ⟨⟨sound, fair, called⟩, ih⟩ steps
  have fair' := fair.step sound steps
  exact ⟨⟨sound.step steps, fair', called.step sound steps⟩, fun alone =>
    called.sorted alone.earlier steps fair'.nodup (ih alone.earlier)⟩

/-- After any schedule, what a subscriber began to handle for the first time of one producer
that publishes its events one after another is a prefix of what was queued for it, and that
stands in the order in which the events were accepted, each once; and the subscriber handles
one delivery at most. -/
theorem first_attempts_in_order (policy : Policy) (world : σ) (acts : List (Act σ))
    (name : String) (mine : Nat → Bool) (alone : OneByOne mine (play policy world acts).history) :
    let s := play policy world acts
    firstTriesOf mine name s.history <+: queuedOf mine name s.history ∧
    ((queuedOf mine name s.history).map (·.serial)).Pairwise (· < ·) ∧
    (accepted s.history).map (·.serial) = List.range s.bus.stats.emitted ∧
    (∀ d ∈ queuedOf mine name s.history, ∃ e ∈ accepted s.history,
      e.serial = d.serial ∧ e.event = d.event) ∧
    (s.exchange.handledBy name).length ≤ 1 := by
  intro s
  have called : s.Called := called_play policy world acts
  have line := inLine_play policy world acts name
  refine ⟨line.begun.filter _, sorted_play policy world acts name mine alone, called.numbered, ?_,
    length_filter_inHand (nodup_dispatchers policy world acts) name⟩
  intro d hd
  exact called.entered d (entry_of_queuedFor (List.mem_filter.mp hd).1).1

/-- Two producers and a subscriber that fails: one publishes an event, then the other one does,
the first delivery fails meanwhile, and the first producer goes on. -/
def interleaved : List (Act Unit) :=
  [.subscribe "slow" ["t"] fun _ => .fail (.run .busShutDown), .start,
    .publish (.plain "t" (.integer 0)), .serve 0, .serve 0, .serve 0,
    .publish (.plain "t" (.integer 1)), .serve 0,
    .move (.dispatcher 0), .move (.dispatcher 0), .serve 0, .serve 0,
    .publish (.plain "t" (.integer 2)), .serve 0, .serve 0, .serve 0,
    .move (.dispatcher 0), .move (.dispatcher 0), .move (.dispatcher 0)]

set_option maxRecDepth 8000 in
/-- The subscriber begins with the two events of the first producer in their order. -/
theorem interleaved_in_order :
    OneByOne (· != 1) (play .standard () interleaved).history ∧
    firstTriesOf (· != 1) "slow" (play .standard () interleaved).history <+:
      queuedOf (· != 1) "slow" (play .standard () interleaved).history ∧
    (firstTriesOf (· != 1) "slow" (play .standard () interleaved).history).map (·.serial) =
      [0, 2] := by
  have alone : OneByOne (· != 1) (play .standard () interleaved).history := .of_check rfl
  exact ⟨alone, (first_attempts_in_order .standard () interleaved "slow" _ alone).1, rfl⟩

end Audit

end Pipeworks
