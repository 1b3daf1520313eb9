import Pipeworks.Proofs.Bus.Backpressure
import Pipeworks.Proofs.Bus.Itinerary
import Pipeworks.Proofs.Bus.Rounds

/-!
# When deliveries are tried again

On the round from its subscriber to the retries and back, the first failure of a delivery is handed from
the delivery to the retry and back, and every retry has its time: no earlier than the backoff after the
last failure, however often its mailbox had no room meanwhile. So an attempt is never queued earlier
than the backoff after the failure of the one before, and a sweep finds the age of a retry in the time
of its first failure.
-/

namespace Pipeworks

variable {σ : Type}

/-! ## Failures and the backoff after them -/

/-- The failures of a delivery, as many as say: they are numbered from 1, the first of them was at the
time that is kept, and the backoff after the last one ends no later than at a time. -/
structure Paced (p : Policy) (fs : List (Nat × Nat)) (failed : Nat) (first : Option Nat)
    (ends : Nat) : Prop where
  numbered : fs.map Prod.snd = List.range' 1 failed
  first : fs.head?.map Prod.fst = first
  rested : ∀ t n, fs.getLast? = some (t, n) → t + p.backoff n ≤ ends

namespace Paced

variable {p : Policy} {fs : List (Nat × Nat)} {failed ends : Nat} {first : Option Nat}

theorem unfailed (p : Policy) (ends : Nat) : Paced p [] 0 none ends :=
  ⟨rfl, rfl, nofun⟩

theorem mono (paced : Paced p fs failed first ends) {ends' : Nat} (le : ends ≤ ends') :
    Paced p fs failed first ends' :=
  ⟨paced.numbered, paced.first, fun t n last => Nat.le_trans (paced.rested t n last) le⟩

/-- The last failure has the number of all failures. -/
theorem last (paced : Paced p fs failed first ends) (some : 1 ≤ failed) :
    ∃ t, fs.getLast? = .some (t, failed) ∧ t + p.backoff failed ≤ ends := by
  obtain ⟨numbered, -, rested⟩ := paced
  have number := congrArg List.getLast? numbered
  rw [List.getLast?_map, List.getLast?_range', if_neg (by omega)] at number
  obtain ⟨⟨t, n⟩, here, same⟩ := Option.map_eq_some_iff.mp number
  obtain rfl : n = failed := by
    have : n = 1 + failed - 1 := same
    omega
  exact ⟨t, here, rested t n here⟩

/-- One more failure; the time of the first one stays. -/
theorem fail {attempt now : Nat} (paced : Paced p fs (attempt - 1) first ends) (some : 1 ≤ attempt) :
    Paced p (fs ++ [(now, attempt)]) attempt (.some (first.getD now)) (now + p.backoff attempt) := by
  obtain ⟨numbered, rfl, -⟩ := paced
  refine ⟨?_, ?_, fun t n last => ?_⟩
  · rw [List.map_append, numbered, List.map_singleton]
    obtain ⟨k, rfl⟩ : ∃ k, attempt = k + 1 := ⟨attempt - 1, by omega⟩
    rw [Nat.add_sub_cancel, List.range'_1_concat, Nat.add_comm 1 k]
  · cases fs <;> rfl
  · rw [List.getLast?_concat] at last
    obtain ⟨rfl, rfl⟩ := Prod.mk.inj (Option.some.inj last)
    exact Nat.le_refl _

end Paced

/-! ## Deliveries in their spots -/

namespace Exchange

variable {s : Exchange σ} {name : String} {d : Delivery}

theorem placed_of_carries (carries : s.Carries name d) :
    (d.parcel name, .waiting d.attempt) ∈ s.placed ∨ (d.parcel name, .handled d.attempt) ∈ s.placed := by
  rcases carries with ⟨m, hm, inside⟩ | ⟨x, hx, rfl, a, on⟩
  · refine .inl (List.mem_append_right _ (List.mem_append_left _ ?_))
    exact List.mem_flatMap.mpr ⟨(name, m), hm, List.mem_map.mpr ⟨d, inside, rfl⟩⟩
  · refine .inr (List.mem_append_left _ (List.mem_flatMap.mpr ⟨x, hx, ?_⟩))
    rw [Dispatcher.inHand, on]
    exact List.mem_singleton_self _

theorem placed_of_pending {r : Retry} (hr : r ∈ s.bus.retries ++ s.bus.requeuing) :
    r.copy ∈ s.placed := by
  refine List.mem_append_right _ (List.mem_append_right _ (List.mem_append_left _ ?_))
  rw [← List.map_append]
  exact List.mem_map_of_mem hr

end Exchange

namespace Audit

variable {p : Policy} {s : Audit σ} {ns : List Note} {exchange : Exchange σ}
  {callers : List Emission} {h : List (Nat × Note)}

/-- What is in its spot or has ended was begun, once. -/
theorem Sound.nodup_keys (sound : s.Sound p) (fair : s.Fair) :
    (s.exchange.placed.map Prod.fst ++ s.history.filterMap Note.ended).Nodup := by
  refine sound.posts.conservation.nodup_iff.mp ?_
  rw [List.map_nil, List.nil_append]
  exact fair.nodup

/-- No delivery is pending twice, or pending and at its end. -/
theorem Sound.nodup_pending (sound : s.Sound p) (fair : s.Fair) :
    ((s.bus.retries ++ s.bus.requeuing).map Retry.parcel ++
      (s.bus.expiring.map DeadLetter.parcel ++ s.history.filterMap Note.ended)).Nodup := by
  have pending : s.bus.pending.map Prod.fst =
      (s.bus.retries ++ s.bus.requeuing).map Retry.parcel ++ s.bus.expiring.map DeadLetter.parcel := by
    rw [Bus.pending, List.map_append, List.map_append, List.map_append, List.map_map, List.map_map,
      List.map_map]
    rfl
  have part : (s.bus.pending.map Prod.fst).Sublist (s.exchange.placed.map Prod.fst) :=
    ((List.sublist_append_right ..).trans (List.sublist_append_right ..)).map Prod.fst
  rw [← List.append_assoc, ← pending]
  exact (sound.nodup_keys fair).sublist (part.append_right _)

theorem Sound.mem_opened (sound : s.Sound p) {k : Parcel}
    (known : k ∈ s.exchange.placed.map Prod.fst ∨ k ∈ s.history.filterMap Note.ended) :
    k ∈ opened s.history := by
  have same := sound.posts.conservation
  rw [List.map_nil, List.nil_append] at same
  exact same.mem_iff.mpr (List.mem_append.mpr known)

theorem Sound.attempted (sound : s.Sound p) {name : String} {d : Delivery}
    (carries : s.exchange.Carries name d) : 1 ≤ d.attempt := by
  rcases Exchange.placed_of_carries carries with here | here <;>
    exact sound.posts.numbered nofun _ here

theorem Sound.tried_pending (sound : s.Sound p) {r : Retry}
    (hr : r ∈ s.bus.retries ++ s.bus.requeuing) : 1 ≤ r.attempts :=
  sound.posts.numbered nofun _ (Exchange.placed_of_pending hr)

/-- Whose failure a step notes comes to the retries, or has ended. -/
theorem failed_of_rounds (rounds : s.exchange.Rounds ns exchange) {k : Parcel} {t : Nat}
    (fails : failures k (ns.map (t, ·)) ≠ []) :
    (∃ r, .postponed r ∈ ns ∧ r.parcel = k ∧ r ∈ exchange.bus.retries) ∨
      k ∈ (s.history ++ ns).filterMap Note.ended := by
  obtain ⟨f, hf⟩ := List.exists_mem_of_ne_nil _ fails
  obtain ⟨e, he, is⟩ := List.mem_filterMap.mp hf
  obtain ⟨n, hn, rfl⟩ := List.mem_map.mp he
  cases n with
  | postponed r =>
    have own : r.parcel = k := by
      by_contra other
      simp [Note.failure, other] at is
    exact .inl ⟨r, hn, own, (rounds.postponed r hn).1⟩
  | gaveUp l =>
    have own : l.parcel = k := by
      by_contra other
      simp [Note.failure, other] at is
    refine .inr (List.mem_filterMap.mpr ⟨_, List.mem_append_right _ hn, ?_⟩)
    rw [← own]
    rfl
  | _ => simp [Note.failure] at is

/-- What is on its way after a step did not fail in it. -/
theorem unfailed_of_carries (sound : Sound p ⟨exchange, callers, s.history ++ ns⟩)
    (fair : Fair ⟨exchange, callers, s.history ++ ns⟩) (rounds : s.exchange.Rounds ns exchange)
    {name : String} {d : Delivery} (carries : exchange.Carries name d) (t : Nat) :
    failures (d.parcel name) (ns.map (t, ·)) = [] := by
  by_contra fails
  obtain ⟨once, -, apart⟩ := List.nodup_append.mp (sound.nodup_keys fair)
  have key {spot : Spot} (here : (d.parcel name, spot) ∈ exchange.placed) :
      d.parcel name ∈ exchange.placed.map Prod.fst := List.mem_map.mpr ⟨_, here, rfl⟩
  have here := Exchange.placed_of_carries carries
  rcases failed_of_rounds rounds fails with ⟨r, -, same, hr⟩ | ended
  · -- It would be on its way and pending at once.
    have there : r.copy ∈ exchange.placed :=
      Exchange.placed_of_pending (List.mem_append_left _ hr)
    rcases here with here | here <;>
      exact absurd (List.inj_on_of_nodup_map once there here same) (by simp [Retry.copy])
  · exact apart _ (here.elim key key) _ ended rfl

/-- What is pending after a step did not fail in it, unless the step says so. -/
theorem unfailed_of_pending (sound : Sound p ⟨exchange, callers, s.history ++ ns⟩)
    (fair : Fair ⟨exchange, callers, s.history ++ ns⟩) (rounds : s.exchange.Rounds ns exchange)
    {r : Retry} (hr : r ∈ exchange.bus.retries ++ exchange.bus.requeuing) (old : .postponed r ∉ ns)
    (t : Nat) : failures r.parcel (ns.map (t, ·)) = [] := by
  by_contra fails
  obtain ⟨once, -, apart⟩ := List.nodup_append.mp (sound.nodup_keys fair)
  rcases failed_of_rounds rounds fails with ⟨r', note, same, hr'⟩ | ended
  · have distinct : ((exchange.bus.retries ++ exchange.bus.requeuing).map Retry.parcel).Nodup :=
      (List.nodup_append.mp (sound.nodup_pending fair)).1
    have is := List.inj_on_of_nodup_map distinct (List.mem_append_left _ hr') hr same
    exact old (is ▸ note)
  · exact apart _ (List.mem_map.mpr ⟨_, Exchange.placed_of_pending hr, rfl⟩) _ ended rfl

/-! ## Runs -/

/-- What is known of the failures of the deliveries that have not ended. -/
structure Timely (p : Policy) (s : Audit σ) (h : List (Nat × Note)) : Prop where
  notes : h.map Prod.snd = s.history
  ordered : (h.map Prod.fst).Pairwise (· ≤ ·)
  past : ∀ e ∈ h, e.1 ≤ s.exchange.clock
  begun : ∀ k, failures k h ≠ [] → k ∈ opened s.history
  carried : ∀ name d, s.exchange.Carries name d → Paced p (failures (d.parcel name) h)
    (d.attempt - 1) d.firstFailure s.exchange.clock
  pending : ∀ r ∈ s.bus.retries ++ s.bus.requeuing,
    Paced p (failures r.parcel h) r.attempts (some r.firstFailure) r.due
  ready : ∀ r ∈ s.bus.requeuing, r.due ≤ s.exchange.clock

theorem timely_fresh (p : Policy) (world : σ) : Timely p (fresh p world) [] where
  notes := rfl
  ordered := .nil
  past _ he := nomatch he
  begun _ fails := absurd rfl fails
  carried := by
    rintro name d (⟨m, hm, -⟩ | ⟨x, hx, -⟩)
    · exact nomatch hm
    · exact nomatch hx
  pending _ hr := nomatch hr
  ready _ hr := nomatch hr

/-- What is on its way after a step was so before, or is new, or was a retry whose time had come. -/
theorem Timely.paced_of_carries (timely : Timely p s h)
    (sound : Sound p ⟨exchange, callers, s.history ++ ns⟩)
    (fair : Fair ⟨exchange, callers, s.history ++ ns⟩) (rounds : s.exchange.Rounds ns exchange)
    (onwards : s.exchange.clock ≤ exchange.clock) {name : String} {d : Delivery}
    (carries : exchange.Carries name d) :
    Paced p (failures (d.parcel name) (h ++ ns.map (exchange.clock, ·))) (d.attempt - 1)
      d.firstFailure exchange.clock := by
  rw [failures_append, unfailed_of_carries sound fair rounds carries, List.append_nil]
  rcases rounds.carried name d carries with old | ⟨note, number, none⟩ | ⟨r, hr, rfl, rfl⟩
  · exact (timely.carried name d old).mono onwards
  · have new : d.parcel name ∉ opened s.history := by
      intro known
      have once := fair.nodup
      rw [opened_append] at once
      exact (List.nodup_append.mp once).2.2 _ known _ (List.mem_filterMap.mpr ⟨_, note, rfl⟩) rfl
    have nothing : failures (d.parcel name) h = [] := by
      by_contra fails
      exact new (timely.begun _ fails)
    rw [nothing, number, none]
    exact .unfailed ..
  · have paced := timely.pending r (List.mem_append_right _ hr)
    exact paced.mono (Nat.le_trans (timely.ready r hr) onwards)

/-- What is pending after a step has just failed, or was pending before, if not with the same time. -/
theorem Timely.paced_of_pending (timely : Timely p s h) (before : s.Sound p)
    (sound : Sound p ⟨exchange, callers, s.history ++ ns⟩)
    (fair : Fair ⟨exchange, callers, s.history ++ ns⟩) (rounds : s.exchange.Rounds ns exchange)
    {r : Retry} (hr : r ∈ exchange.bus.retries ++ exchange.bus.requeuing) :
    Paced p (failures r.parcel (h ++ ns.map (exchange.clock, ·))) r.attempts
      (some r.firstFailure) r.due := by
  by_cases note : .postponed r ∈ ns
  · obtain ⟨-, one, name, d, error, carries, after⟩ := rounds.postponed r note
    rw [show s.exchange.bus.policy = p from before.policy] at after
    obtain ⟨parcel, attempts, first, due⟩ := Policy.retry_of_afterFailure after
    have fails : failures r.parcel (ns.map (exchange.clock, ·)) = [(exchange.clock, r.attempts)] := by
      simp [one, failures, Note.failure]
    rw [failures_append, fails, parcel, attempts, first, due]
    exact (timely.carried name d carries).fail (before.attempted carries)
  · rw [failures_append, unfailed_of_pending sound fair rounds hr note, List.append_nil]
    rcases List.mem_append.mp hr with waits | ready
    · rcases rounds.retries r waits with old | ⟨r₀, hr₀, rfl⟩ | new
      · exact timely.pending r old
      · refine (timely.pending r₀ (List.mem_append_right _ hr₀)).mono ?_
        exact Nat.le_trans (timely.ready r₀ hr₀) (Nat.le_add_right ..)
      · exact absurd new note
    · rcases rounds.requeuing r ready with old | ⟨old, -⟩
      · exact timely.pending r (List.mem_append_right _ old)
      · exact timely.pending r (List.mem_append_left _ old)

theorem Timely.step (timely : Timely p s h) (before : s.Sound p)
    (sound : Sound p ⟨exchange, callers, s.history ++ ns⟩)
    (fair : Fair ⟨exchange, callers, s.history ++ ns⟩) (rounds : s.exchange.Rounds ns exchange)
    (onwards : s.exchange.clock ≤ exchange.clock) :
    Timely p ⟨exchange, callers, s.history ++ ns⟩ (h ++ ns.map (exchange.clock, ·)) where
  notes := by
    rw [List.map_append, timely.notes, List.map_map]
    exact congrArg (s.history ++ ·) (List.map_id _)
  ordered := by
    rw [List.map_append, List.map_map, List.pairwise_append]
    refine ⟨timely.ordered, ?_, ?_⟩
    · exact List.pairwise_map.mpr (List.pairwise_of_forall fun _ _ => Nat.le_refl _)
    · intro t ht t' ht'
      obtain ⟨e, he, rfl⟩ := List.mem_map.mp ht
      obtain ⟨n, -, rfl⟩ := List.mem_map.mp ht'
      exact Nat.le_trans (timely.past e he) onwards
  past e he := by
    rcases List.mem_append.mp he with old | new
    · exact Nat.le_trans (timely.past e old) onwards
    · obtain ⟨n, -, rfl⟩ := List.mem_map.mp new
      exact Nat.le_refl _
  begun k fails := by
    by_cases old : failures k h = []
    · rw [failures_append, old, List.nil_append] at fails
      refine sound.mem_opened ?_
      rcases failed_of_rounds rounds fails with ⟨r, -, rfl, hr⟩ | ended
      · have here := Exchange.placed_of_pending (s := exchange) (List.mem_append_left _ hr)
        exact .inl (List.mem_map.mpr ⟨_, here, rfl⟩)
      · exact .inr ended
    · rw [opened_append]
      exact List.mem_append_left _ (timely.begun k old)
  carried _ _ carries := timely.paced_of_carries sound fair rounds onwards carries
  pending _ hr := timely.paced_of_pending before sound fair rounds hr
  ready r hr := by
    rcases rounds.requeuing r hr with old | ⟨-, due⟩
    · exact Nat.le_trans (timely.ready r old) onwards
    · exact Nat.le_trans due onwards

theorem timely_play (policy : Policy) (world : σ) (acts : List (Act σ)) :
    Timely policy (play policy world acts) (chronicle policy world acts) :=
  (chronicle_induction (P := fun s h => (s.Sound policy ∧ s.Fair) ∧ Timely policy s h)
    ⟨⟨sound_fresh policy world, fair_fresh policy world⟩, timely_fresh policy world⟩
    (fun _ _ _ _ _ known steps onwards =>
      have sound := known.1.1.step steps
      have fair := known.1.2.step known.1.1 steps
      ⟨⟨sound, fair⟩, known.2.step known.1.1 sound fair steps.rounds onwards⟩) acts).2

/-! ## Sweeps -/

/-- Whether a retry is to be given up: its delivery failed for the first time too long ago, or its
subscriber has no mailbox that can be found. -/
def isStale (s : Audit σ) (r : Retry) : Bool :=
  decide (r.firstFailure + s.bus.policy.retryTtl < s.exchange.clock) || !s.bus.isLive r.subscriber

theorem isStale_eq (s : Audit σ) :
    Retries.isStale s.exchange.clock s.bus.policy.retryTtl s.bus.isLive = s.isStale := by
  funext r
  rw [Retries.isStale, isStale]
  congr 1
  exact decide_eq_decide.mpr (by omega)

theorem sweep_of_tick {i : Nat} (tick : s.exchange.sweepTick? i = some exchange) :
    exchange.bus.retries = s.bus.retries.filter (!s.isStale ·) ∧
    exchange.bus.expiring =
      s.bus.expiring ++ (s.bus.retries.filter s.isStale).map s.bus.staleLetter := by
  obtain ⟨ticks, -, rfl⟩ := Option.map_eq_some_iff.mp tick
  have purged : s.bus.retries.purge s.exchange.clock s.bus.policy.retryTtl s.bus.isLive =
      (s.bus.retries.filter s.isStale, s.bus.retries.filter (!s.isStale ·)) := by
    rw [Retries.purge, List.partition_eq_filter_filter, isStale_eq]
    rfl
  exact ⟨congrArg Prod.snd purged,
    congrArg (fun q : Retries × Retries => s.bus.expiring ++ q.1.map s.bus.staleLetter) purged⟩

/-- The letters in the hand are recorded one after another. -/
theorem expire_all {ls : List DeadLetter} (hand : s.bus.expiring = ls) :
    let after := (List.replicate ls.length (Act.move .expire)).foldl act s
    after.history = s.history ++ ls.map .expired ∧ after.bus.expiring = [] ∧
      after.bus.retries = s.bus.retries := by
  induction ls generalizing s with
  | nil => exact ⟨(List.append_nil _).symm, hand, rfl⟩
  | cons l ls ih =>
    have here : s.exchange.bus.expiring = l :: ls := hand
    have first : s.act (.move .expire) = { s with
        exchange := s.exchange.onBus fun b => { b with expiring := ls }.bury l
        history := s.history ++ [.expired l] } := by
      simp only [act, move, Exchange.step?, Exchange.expire?, Exchange.notes, Bus.expire?,
        Bus.expireNotes, here]
      rfl
    rw [List.length_cons, List.replicate_succ, List.foldl_cons, first]
    obtain ⟨history, none, same⟩ := ih (s := { s with
        exchange := s.exchange.onBus fun b => { b with expiring := ls }.bury l
        history := s.history ++ [.expired l] }) rfl
    refine ⟨?_, none, same⟩
    rw [history, List.map_cons, List.append_assoc]
    rfl

/-- What a sweep does that begins now: it takes the stale retries, and records a letter for each of them
unless somebody is faster; all others stay, in their order. -/
structure Sweeps (s : Audit σ) (i : Nat) (stale kept : Retries) : Prop where
  taken : (s.act (.move (.sweepTick i))).bus.retries = kept ∧
    (s.act (.move (.sweepTick i))).bus.expiring = s.bus.expiring ++ stale.map s.bus.staleLetter
  recorded : ∀ after, after = (List.replicate (s.bus.expiring.length + stale.length)
      (Act.move .expire)).foldl act (s.act (.move (.sweepTick i))) →
    after.history = s.history ++ (s.bus.expiring ++ stale.map s.bus.staleLetter).map .expired ∧
    after.bus.expiring = [] ∧ after.bus.retries = kept

theorem sweeps_of_tick {i : Nat} (tick : s.exchange.sweepTick? i = some exchange) :
    s.Sweeps i (s.bus.retries.filter s.isStale) (s.bus.retries.filter (!s.isStale ·)) := by
  obtain ⟨kept, taken⟩ := sweep_of_tick tick
  have first : s.act (.move (.sweepTick i)) = ⟨exchange, s.callers, s.history⟩ := by
    have step : s.exchange.step? (.sweepTick i) = some exchange := tick
    simp only [act, move, step, Exchange.notes, List.append_nil]
  refine ⟨by rw [first]; exact ⟨kept, taken⟩, ?_⟩
  rintro after rfl
  obtain ⟨history, none, same⟩ := expire_all (s := ⟨exchange, s.callers, s.history⟩) taken
  rw [List.length_append, List.length_map] at history none same
  rw [first]
  exact ⟨history, none, same.trans kept⟩

/-! ## The times of retries -/

/-- After any schedule every pending retry keeps the time of its delivery's first failure, and is due no
earlier than the backoff after the last one, which has the number of its attempts; a delivery that is
queued or handled for another attempt has waited as long; and a sweep gives up exactly the retries whose
deliveries failed for the first time longer than the policy allows ago, or whose subscribers have no
mailbox that can be found. -/
theorem retries_in_time (policy : Policy) (world : σ) (acts : List (Act σ)) :
    let s := play policy world acts
    let h := chronicle policy world acts
    (h.map Prod.snd = s.history ∧ (h.map Prod.fst).Pairwise (· ≤ ·) ∧
      ∀ e ∈ h, e.1 ≤ s.exchange.clock) ∧
    (∀ r ∈ s.bus.retries ++ s.bus.requeuing,
      (failures r.parcel h).map Prod.snd = List.range' 1 r.attempts ∧
      (failures r.parcel h).head?.map Prod.fst = some r.firstFailure ∧
      ∃ t, (failures r.parcel h).getLast? = some (t, r.attempts) ∧
        t + policy.backoff r.attempts ≤ r.due) ∧
    (∀ name d, s.exchange.Carries name d → 1 < d.attempt →
      (failures (d.parcel name) h).map Prod.snd = List.range' 1 (d.attempt - 1) ∧
      (failures (d.parcel name) h).head?.map Prod.fst = d.firstFailure ∧
      ∃ t, (failures (d.parcel name) h).getLast? = some (t, d.attempt - 1) ∧
        t + policy.backoff (d.attempt - 1) ≤ s.exchange.clock) ∧
    ∀ i, s.exchange.sweepTick? i ≠ none →
      s.Sweeps i
        (s.bus.retries.filter fun r => r.firstFailure + policy.retryTtl < s.exchange.clock ∨
          s.bus.isLive r.subscriber = false)
        (s.bus.retries.filter fun r => ¬ (r.firstFailure + policy.retryTtl < s.exchange.clock ∨
          s.bus.isLive r.subscriber = false)) := by
  intro s h
  have timely : Timely policy s h := timely_play policy world acts
  have sound : s.Sound policy := sound_play policy world acts
  refine ⟨⟨timely.notes, timely.ordered, timely.past⟩, fun r hr => ?_, fun name d carries again => ?_,
    fun i ticks => ?_⟩
  · have paced := timely.pending r hr
    exact ⟨paced.numbered, paced.first, paced.last (sound.tried_pending hr)⟩
  · have paced := timely.carried name d carries
    exact ⟨paced.numbered, paced.first, paced.last (by omega)⟩
  · obtain ⟨exchange, tick⟩ := Option.ne_none_iff_exists'.mp ticks
    have same (r : Retry) : s.isStale r = decide (r.firstFailure + policy.retryTtl < s.exchange.clock ∨
        s.bus.isLive r.subscriber = false) := by
      rw [isStale, sound.policy, Bool.decide_or]
      congr 1
      cases s.bus.isLive r.subscriber <;> rfl
    have sweeps := sweeps_of_tick tick
    rw [funext same] at sweeps
    simpa only [decide_not] using sweeps

/-- A retry tick when all retries are due. -/
theorem retryTick_all {i : Nat} {ticks : List Nat}
    (ticked : Exchange.tick? s.exchange.clock s.exchange.bus.policy.retryInterval
      s.exchange.retryTicks i = some ticks)
    (all : ∀ r ∈ s.exchange.bus.retries, r.due ≤ s.exchange.clock) :
    s.act (.move (.retryTick i)) = { s with exchange := { s.exchange.onBus (fun b =>
      { b with retries := [], requeuing := b.requeuing ++ b.retries }) with retryTicks := ticks } } := by
  have due : s.exchange.bus.retries.takeDue s.exchange.clock = (s.exchange.bus.retries, []) := by
    rw [Retries.takeDue, List.partition_eq_filter_filter]
    refine Prod.ext (List.filter_eq_self.mpr ?_) (List.filter_eq_nil_iff.mpr ?_)
    · exact fun r hr => decide_eq_true (all r hr)
    · exact fun r hr => by simp [all r hr]
  have step : s.exchange.step? (.retryTick i) = some { s.exchange.onBus (fun b =>
      { b with retries := [], requeuing := b.requeuing ++ b.retries }) with retryTicks := ticks } := by
    rw [Exchange.step?, Exchange.retryTick?, ticked, Option.map_some, Exchange.onBus, Bus.takeDue]
    rw [show s.exchange.floor.bus.retries.takeDue s.exchange.clock = _ from due]
    rfl
  simp only [act, move, step, Exchange.notes, List.append_nil]

/-- A subscriber with room for one delivery, which fails at the time 5 while another one waits. -/
def failing : List (Act Unit) :=
  [.subscribe "down" ["t"] fun _ => .fail (.run .busShutDown), .start,
    .publish (.plain "t" .null), .serve 0, .serve 0, .serve 0, .move (.dispatcher 0),
    .publish (.plain "t" .null), .serve 0, .serve 0, .serve 0, .move (.wait 5), .move (.dispatcher 0)]

/-- The retry is due, but there is no room for it. -/
def crowded : List (Act Unit) :=
  failing ++ [.move (.wait (Policy.narrow.backoff 1))] ++ [.move (.retryTick 0)] ++ [.move .requeue]

/-- The retry is left alone for longer than the policy allows. -/
def neglected : List (Act Unit) :=
  failing ++ [.move (.wait (Policy.narrow.retryTtl + 1))]

set_option maxRecDepth 8000 in
/-- The retry that found no room still has the time of the first failure, and the one that was left alone
is given up by the next sweep. -/
theorem retries_in_time_crowded :
    (∃ r ∈ (play .narrow () crowded).bus.retries,
      r.parcel = ⟨0, "down"⟩ ∧ r.due = 0 + 5 + Policy.narrow.backoff 1 + 50 ∧
      (failures r.parcel (chronicle .narrow () crowded)).head?.map Prod.fst = some 5 ∧
      ∃ t, (failures r.parcel (chronicle .narrow () crowded)).getLast? = some (t, 1) ∧
        t + Policy.narrow.backoff 1 ≤ r.due) ∧
    ∃ r, (play .narrow () neglected).bus.retries = [r] ∧
      (play .narrow () neglected).Sweeps 0 [r] [] := by
  constructor
  · have retries : (play .narrow () crowded).bus.retries = [(Retry.mk 0 (.plain "t" .null) "down" 1 3
        (0 + 5 + Policy.narrow.backoff 1) 5 Bus.queueFull).later .narrow
          (0 + 5 + Policy.narrow.backoff 1)] := by
      rw [crowded, play_concat, play_concat]
      have waits : (play .narrow () (failing ++
          [.move (.wait (Policy.narrow.backoff 1))])).exchange.bus.retries =
          [⟨0, .plain "t" .null, "down", 1, 3, 0 + 5 + Policy.narrow.backoff 1, 5,
            (Fault.run .busShutDown).message⟩] := rfl
      have due : ∀ r ∈ (play .narrow () (failing ++
          [.move (.wait (Policy.narrow.backoff 1))])).exchange.bus.retries,
          r.due ≤ 0 + 5 + Policy.narrow.backoff 1 := by
        intro r hr
        rw [waits] at hr
        obtain rfl := List.mem_singleton.mp hr
        exact Nat.le_refl _
      have tick := retryTick_all (show Exchange.tick? _ _ _ 0 = some [50] from rfl) due
      rw [tick]
      rfl
    obtain ⟨-, pending, -⟩ := retries_in_time .narrow () crowded
    obtain ⟨-, first, last⟩ := pending _ (List.mem_append_left _ (retries ▸ List.mem_singleton_self _))
    exact ⟨_, retries ▸ List.mem_singleton_self _, rfl, rfl, first, last⟩
  · obtain ⟨-, -, -, sweeps⟩ := retries_in_time .narrow () neglected
    exact ⟨_, rfl, sweeps 0 (Option.ne_none_iff_isSome.mpr rfl)⟩

end Audit

end Pipeworks
