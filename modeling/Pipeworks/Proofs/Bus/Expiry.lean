import Pipeworks.Proofs.Bus.Hands

/-!
# Streams that a clean-up removes

A clean-up removes the streams that are older than it allows, and the finished ones whose reader has been
handed out. The age of a stream is counted from when it was opened, whatever has been written or read
since: an old stream that is not finished is cancelled, even while somebody reads it. So the reader of a
stream in use sees a truncation only if the writer left, all streams were truncated, or a clean-up found
the stream too old.
-/

namespace Pipeworks

namespace Hand

/-- Whether this removes a stream that the registry knows. -/
def removes (c : Channel) : Hand → Bool
  | cleanup now ttl => c.isDisposable now ttl
  | truncateAll => true
  | _ => false

/-- Whether this cancels a stream that the registry knows. -/
def cancels (c : Channel) : Hand → Bool
  | cleanup now ttl => c.isExpired now ttl && !c.finished
  | truncateAll => true
  | _ => false

/-- Only a finished stream is removed without being cancelled. -/
theorem finished_or_cancels {c : Channel} (h : Hand) (removes : h.removes c = true) :
    c.finished = true ∨ h.cancels c = true := by
  cases h with
  | truncateAll => exact .inr rfl
  | cleanup now ttl =>
    rw [Hand.removes, Channel.isDisposable, Bool.or_eq_true, Bool.and_eq_true] at removes
    rw [cancels, Bool.and_eq_true, Bool.not_eq_true']
    cases finished : c.finished with
    | true => exact .inl rfl
    | false => exact .inr ⟨removes.resolve_right fun settled => by simp [finished] at settled, rfl⟩
  | _ => exact absurd removes Bool.false_ne_true

end Hand

/-! ## Steps -/

/-- What the registry makes of a stream when something is done. -/
structure Channel.Kept (h : Hand) (c c' : Channel) : Prop where
  openedAt : c'.openedAt = c.openedAt
  listed : c'.listed = (c.listed && !h.removes c)
  cancelled : c'.cancelled = (c.cancelled || (c.listed && h.cancels c))

namespace Channel

variable {id : String} {c c' : Channel} {t t' : Tape}

/-- What the registry knows of a stream beside its reader. -/
def entry (c : Channel) : Nat × Bool × Bool := (c.openedAt, c.listed, c.cancelled)

/-- What is done to a single stream does not concern the registry. -/
theorem Kept.aside {h : Hand} (stays : h.removes c = false) (runs : h.cancels c = false)
    (same : c'.entry = c.entry) : Kept h c c' := by
  obtain ⟨openedAt, rest⟩ := Prod.mk.inj same
  obtain ⟨listed, cancelled⟩ := Prod.mk.inj rest
  refine ⟨openedAt, ?_, ?_⟩
  · rw [listed, stays, Bool.not_false, Bool.and_true]
  · rw [cancelled, runs, Bool.and_false, Bool.or_false]

theorem kept_clean (c : Channel) (now ttl : Nat) : Kept (.cleanup now ttl) c (c.clean now ttl) := by
  by_cases gone : (c.listed && c.isDisposable now ttl) = true
  · obtain ⟨listed, disposable⟩ := Bool.and_eq_true_iff.mp gone
    rw [clean, if_pos gone]
    exact ⟨rfl, by simp [Hand.removes, forget, disposable], by simp [Hand.cancels, listed]⟩
  · rw [clean, if_neg gone]
    cases listed : c.listed with
    | false => exact ⟨rfl, by rw [listed]; rfl, by rw [listed, Bool.false_and, Bool.or_false]⟩
    | true =>
      rw [listed, Bool.true_and, Bool.not_eq_true] at gone
      have young := (Bool.or_eq_false_iff.mp gone).1
      exact .aside gone (by simp [Hand.cancels, young]) rfl

theorem kept_truncate (c : Channel) : Kept .truncateAll c c.truncate := by
  cases listed : c.listed with
  | false => exact ⟨by simp [truncate, listed], by simp [truncate, listed], by simp [truncate, listed]⟩
  | true =>
    rw [truncate, if_pos listed]
    exact ⟨rfl, by rw [Hand.removes, Bool.not_true, Bool.and_false]; rfl,
      by rw [Hand.cancels, listed, Bool.true_and, Bool.or_true]⟩

theorem entry_does {h : Hand} {k : String} (names : h.stream? = some k) (c : Channel) (t : Tape) :
    (h.does id c t).1.entry = c.entry := by
  cases h with
  | start | cleanup | truncateAll => simp [Hand.stream?] at names
  | write k data isFinal =>
    obtain ⟨_, same⟩ := Hand.does_write k id c t data isFinal
    rw [same]
    rfl
  | push k =>
    obtain ⟨_, same⟩ := Hand.does_push k id c t
    rw [same]
    rfl
  | poll k =>
    obtain ⟨_, _, _, same⟩ := Hand.does_poll k id c t
    rw [same]
    rfl
  | finish k | dropWriter k | claim k | notice k | dropReader k =>
    rw [Hand.does]
    split <;> rfl

/-- What is done to a stream, as the registry sees it. -/
theorem kept_touch (h : Hand) (id : String) (c : Channel) (t : Tape) :
    Kept h c (h.touch id c t).1 := by
  cases names : h.stream? with
  | some k =>
    have same : (h.touch id c t).1.entry = c.entry := by
      rw [Hand.touch]
      split
      · exact entry_does names c t
      · rfl
    refine .aside ?_ ?_ same <;> cases h <;> first | rfl | simp [Hand.stream?] at names
  | none =>
    rw [Hand.touch, names]
    cases h with
    | start => exact .aside rfl rfl rfl
    | cleanup now ttl => exact kept_clean c now ttl
    | truncateAll => exact kept_truncate c
    | _ => simp [Hand.stream?] at names

/-- What a step does to the reasons for which a stream ends. -/
structure Ends (c : Channel) (t : Tape) (c' : Channel) (t' : Tape) : Prop where
  finished : c.finished = true → c'.finished = true
  writer : c.hasWriter = false → c'.hasWriter = false
  closing : c'.closing = true → c.closing = true ∨ c.cancelled = true
  truncated : ∀ k, .truncated k ∈ t'.results →
    .truncated k ∈ t.results ∨ c.closing = true ∨ c.hasWriter = false

theorem Ends.same (finished : c'.finished = c.finished) (writer : c'.hasWriter = c.hasWriter)
    (closing : c'.closing = c.closing) (results : t'.results = t.results) : c.Ends t c' t' where
  finished past := finished.trans past
  writer left := writer.trans left
  closing shut := .inl (closing.symm.trans shut)
  truncated _ seen := .inl (results ▸ seen)

theorem ends_poll {r : ReadResult} (found : c.poll id = (r, c')) :
    c.Ends t c' { t with results := t.results ++ [r] } := by
  have more {r : ReadResult} (why : ∀ k, r = .truncated k → c.closing = true ∨ c.hasWriter = false) :
      ∀ k, .truncated k ∈ t.results ++ [r] →
        .truncated k ∈ t.results ∨ c.closing = true ∨ c.hasWriter = false :=
    fun k seen => (List.mem_append.mp seen).imp_right fun new => why k (List.mem_singleton.mp new).symm
  rw [poll] at found
  split at found
  · obtain ⟨rfl, rfl⟩ := Prod.mk.inj found
    exact ⟨fun past => past, fun left => left, .inl, more (by simp)⟩
  · split at found
    · obtain ⟨rfl, rfl⟩ := Prod.mk.inj found
      exact ⟨fun past => past, fun left => left, .inl, more (by simp)⟩
    · split at found
      · rename_i shut
        obtain ⟨rfl, rfl⟩ := Prod.mk.inj found
        exact ⟨fun past => past, fun left => left, .inl, more fun _ _ => by simpa using shut⟩
      · obtain ⟨rfl, rfl⟩ := Prod.mk.inj found
        exact ⟨fun past => past, fun left => left, .inl, more (by simp)⟩

theorem Steps.ends (steps : Steps id c t c' t') : c.Ends t c' t' := by
  cases steps with
  | began free held ok =>
    obtain ⟨-, -, rfl⟩ := number_ok ok
    exact .same rfl rfl rfl rfl
  | @pushed chunk c' writing took =>
    obtain ⟨buffer, same⟩ := c.push_changes chunk
    obtain rfl : c' = { c with buffer } := (congrArg Prod.snd took).symm.trans same
    exact .same rfl rfl rfl rfl
  | returned writing =>
    exact ⟨fun past => Bool.or_eq_true_iff.mpr (.inl past), fun left => left, .inl, fun _ => .inl⟩
  | polled found => exact ends_poll found
  | writerLeft => exact ⟨fun past => past, fun _ => rfl, .inl, fun _ => .inl⟩
  | noticed =>
    refine ⟨fun past => past, fun left => left, fun shut => ?_, fun _ => .inl⟩
    exact Bool.or_eq_true_iff.mp shut
  | cleaned now ttl =>
    rw [clean]
    split <;> exact .same rfl rfl rfl rfl
  | truncated =>
    rw [truncate]
    split <;> exact .same rfl rfl rfl rfl
  | still | refused | claimed | readerLeft => exact .same rfl rfl rfl rfl

end Channel

namespace Traffic

variable {s : Traffic} {id : String} {c : Channel} {h : Hand}

/-! ## The end of a stream that was cut -/

theorem record_of_poll {c' : Channel} {r : ReadResult} (known : s.streams.get? id = some c)
    (claimed : c.reader = .claimed) (found : c.poll id = (r, c')) (some : r ≠ .pending) :
    s.act (.poll id) =
      s.record id (s.streams.set id c') { s.tape id with results := (s.tape id).results ++ [r] } := by
  refine act_poll (isRead_of_known known claimed) ?_ some
  rw [Streams.poll_of_get? known, found]

/-- Of a stream that takes no more chunks the reader sees what is in the buffer, and the truncation. -/
theorem polls_to_truncation (known : s.streams.get? id = some c) (claimed : c.reader = .claimed)
    (closing : c.closing = true) (going : c.ended = false) {chunks : List Chunk}
    (buffer : c.buffer = chunks) (plain : ∀ x ∈ chunks, x.isFinal = false) :
    (((List.replicate (chunks.length + 1) (.poll id)).foldl act s).tape id).results =
      (s.tape id).results ++ chunks.map .chunk ++ [.truncated id] := by
  induction chunks generalizing s c with
  | nil =>
    have found : c.poll id = (.truncated id, { c with ended := true }) := by
      rw [Channel.poll, going, buffer, closing]
      rfl
    rw [List.length_nil, List.replicate_succ, List.replicate_zero, List.foldl_cons, List.foldl_nil,
      record_of_poll known claimed found (by simp), tape_record, List.map_nil, List.append_nil]
  | cons x chunks ih =>
    obtain ⟨first, rest⟩ := List.forall_mem_cons.mp plain
    have found : c.poll id = (.chunk x, { c with buffer := chunks, ended := x.isFinal }) := by
      rw [Channel.poll, going, buffer]
      rfl
    rw [List.length_cons, List.replicate_succ, List.foldl_cons, record_of_poll known claimed found (by simp),
      ih (c := { c with buffer := chunks, ended := x.isFinal })
        (shows_of_get? known).record_self.channel claimed closing first rfl rest, tape_record,
      List.map_cons, List.append_assoc, List.append_assoc, List.append_assoc]
    rfl

/-! ## Runs -/

/-- Something happened to a stream in the course of what was done. -/
def Happened (hands : List Hand) (id : String) (P : Hand → Channel → Prop) : Prop :=
  ∃ before h rest c, hands = before ++ h :: rest ∧ (after before).streams.get? id = some c ∧ P h c

theorem Happened.more {hands : List Hand} {P : Hand → Channel → Prop} (past : Happened hands id P)
    (h : Hand) : Happened (hands ++ [h]) id P := by
  obtain ⟨before, h', rest, c, rfl, known, holds⟩ := past
  refine ⟨before, h', rest ++ [h], c, ?_, known, holds⟩
  rw [List.append_assoc, List.cons_append]

theorem happened_now {hands : List Hand} {P : Hand → Channel → Prop}
    (known : (after hands).streams.get? id = some c) {h : Hand} (holds : P h c) :
    Happened (hands ++ [h]) id P :=
  ⟨hands, h, [], c, rfl, known, holds⟩

/-- What was done explains what the registry knows of a stream, and what its reader has seen. -/
structure Explained (hands : List Hand) (id : String) (c : Channel) : Prop where
  opened : ∃ before room rest, hands = before ++ .start room c.openedAt :: rest ∧
    (after before).streams.get? id = none
  removed : c.listed = false →
    Happened hands id fun h c₀ => c₀.openedAt = c.openedAt ∧ c₀.listed = true ∧ h.removes c₀ = true
  cancelled : c.cancelled = true →
    Happened hands id fun h c₀ => c₀.openedAt = c.openedAt ∧ c₀.listed = true ∧ h.cancels c₀ = true
  settled : c.listed = false → c.finished = true ∨ c.cancelled = true
  closing : c.closing = true → c.cancelled = true
  truncated : ∀ k, .truncated k ∈ ((after hands).tape id).results →
    c.hasWriter = false ∨ c.cancelled = true

theorem Explained.step {hands : List Hand} {c₀ : Channel} (explained : Explained hands id c₀)
    (before : (after hands).streams.get? id = some c₀) (kept : c₀.Kept h c)
    (ends : c₀.Ends ((after hands).tape id) c ((after (hands ++ [h])).tape id)) :
    Explained (hands ++ [h]) id c := by
  have now {P : Hand → Channel → Prop} (holds : P h c₀) : Happened (hands ++ [h]) id P :=
    happened_now before holds
  refine ⟨?_, fun gone => ?_, fun cut => ?_, fun gone => ?_, fun shut => ?_, fun k seen => ?_⟩
  · obtain ⟨first, room, rest, rfl, new⟩ := explained.opened
    refine ⟨first, room, rest ++ [h], ?_, new⟩
    rw [kept.openedAt, List.append_assoc, List.cons_append]
  · rw [kept.openedAt]
    cases listed : c₀.listed with
    | false => exact (explained.removed listed).more h
    | true =>
      rw [kept.listed, listed, Bool.true_and, Bool.not_eq_false'] at gone
      exact now ⟨rfl, listed, gone⟩
  · rw [kept.openedAt]
    rw [kept.cancelled, Bool.or_eq_true, Bool.and_eq_true] at cut
    rcases cut with past | new
    · exact (explained.cancelled past).more h
    · exact now ⟨rfl, new⟩
  · rw [kept.cancelled, Bool.or_eq_true]
    cases listed : c₀.listed with
    | false => exact (explained.settled listed).imp ends.finished .inl
    | true =>
      rw [kept.listed, listed, Bool.true_and, Bool.not_eq_false'] at gone
      exact (h.finished_or_cancels gone).imp ends.finished .inr
  · rw [kept.cancelled, Bool.or_eq_true]
    exact .inl ((ends.closing shut).elim explained.closing fun cut => cut)
  · rw [kept.cancelled, Bool.or_eq_true]
    rcases ends.truncated k seen with past | shut | left
    · exact (explained.truncated k past).imp ends.writer .inl
    · exact .inr (.inl (explained.closing shut))
    · exact .inl (ends.writer left)

theorem explained_after (hands : List Hand) (id : String) (c : Channel)
    (known : (after hands).streams.get? id = some c) : Explained hands id c := by
  induction hands using List.reverseRecOn generalizing c with
  | nil => simp [after, empty, Streams.empty, Streams.get?] at known
  | append_singleton hands h ih =>
    have sound := sound_after hands
    have next : after (hands ++ [h]) = (after hands).act h := after_append hands [h]
    rw [next] at known
    have moves := (sound.goes h).moves id
    cases before : (after hands).streams.get? id with
    | none =>
      obtain ⟨capacity, room, now, rfl, rfl⟩ := start_of_new sound before known
      refine ⟨⟨hands, capacity, [], rfl, before⟩, by simp [Channel.fresh], by simp [Channel.fresh],
        by simp [Channel.fresh], by simp [Channel.fresh], fun k seen => ?_⟩
      cases moves with
      | absent _ _ tape | opened _ _ tape =>
        rw [next, tape, sound.unknown id before] at seen
        exact absurd seen List.not_mem_nil
      | moved there => simp [before] at there
    | some c₀ =>
      have there := ((shows_of_get? before).act sound h).channel
      obtain rfl := Option.some.inj (there.symm.trans known)
      refine (ih c₀ before).step before (Channel.kept_touch ..) ?_
      cases moves with
      | absent new | opened new => simp [before] at new
      | moved first last steps =>
        obtain rfl := Option.some.inj (before.symm.trans first)
        obtain rfl := Option.some.inj (there.symm.trans last)
        rw [next]
        exact steps.ends

/-- A reader of an unfinished stream that a clean-up finds too old sees what has been sent, and then the
truncation. -/
theorem cut_by_cleanup {now ttl : Nat} (known : s.streams.get? id = some c) (listed : c.listed = true)
    (claimed : c.reader = .claimed) (going : c.finished = false) (reading : c.ended = false)
    (plain : ∀ x ∈ c.buffer, x.isFinal = false) (old : ttl < now - c.openedAt) :
    (((List.replicate (c.buffer.length + 1) (.poll id)).foldl act
      ((s.act (.cleanup now ttl)).act (.notice id))).tape id).results =
      (s.tape id).results ++ c.buffer.map .chunk ++ [.truncated id] := by
  have expired : c.isExpired now ttl = true := decide_eq_true old
  have cleaned : c.clean now ttl = { c with listed := false, cancelled := true } := by
    rw [Channel.clean, if_pos (by rw [listed, Channel.isDisposable, expired]; rfl), Channel.forget,
      claimed, if_neg (by decide), expired, going, Bool.not_false, Bool.and_self, Bool.or_true]
  have removed : (s.act (.cleanup now ttl)).streams.get? id =
      some { c with listed := false, cancelled := true } :=
    (s.streams.get?_map (·.clean now ttl) id).trans
      ((congrArg (Option.map _) known).trans (congrArg some cleaned))
  have read : (s.act (.cleanup now ttl)).isRead id = true := isRead_of_known removed claimed
  have noticed : ((s.act (.cleanup now ttl)).act (.notice id)).streams.get? id =
      some { c with listed := false, cancelled := true, closing := true } := by
    rw [act, if_pos read, Streams.notice, Streams.get?_change, if_pos rfl, removed, Option.map_some,
      Channel.notice, Bool.or_true]
  have same : ((s.act (.cleanup now ttl)).act (.notice id)).tape = s.tape := by
    rw [act, if_pos read, act]
  rw [polls_to_truncation noticed claimed rfl reading rfl plain, same]

/-- Why the registry no longer knows a stream that was opened at this time. -/
inductive GivenUp (openedAt : Nat) : Hand → Channel → Prop where
  | truncated (c : Channel) : GivenUp openedAt .truncateAll c
  | tooOld {now ttl : Nat} (c : Channel) (old : ttl < now - openedAt) :
      GivenUp openedAt (.cleanup now ttl) c
  | settled {now ttl : Nat} {c : Channel} (finished : c.finished = true) (handedOut : c.reader ≠ .parked) :
      GivenUp openedAt (.cleanup now ttl) c

/-- Why a stream that was opened at this time has been cancelled. -/
inductive Cut (openedAt : Nat) : Hand → Channel → Prop where
  | truncated (c : Channel) : Cut openedAt .truncateAll c
  | tooOld {now ttl : Nat} {c : Channel} (old : ttl < now - openedAt) (going : c.finished = false) :
      Cut openedAt (.cleanup now ttl) c

theorem givenUp_of_removes (removes : h.removes c = true) : GivenUp c.openedAt h c := by
  cases h with
  | truncateAll => exact .truncated c
  | cleanup now ttl =>
    rw [Hand.removes, Channel.isDisposable, Bool.or_eq_true, Bool.and_eq_true, bne_iff_ne] at removes
    rcases removes with old | ⟨finished, handedOut⟩
    · exact .tooOld c (of_decide_eq_true old)
    · exact .settled finished handedOut
  | _ => exact absurd removes Bool.false_ne_true

theorem cut_of_cancels (cancels : h.cancels c = true) : Cut c.openedAt h c := by
  cases h with
  | truncateAll => exact .truncated c
  | cleanup now ttl =>
    rw [Hand.cancels, Bool.and_eq_true, Bool.not_eq_true'] at cancels
    exact .tooOld (of_decide_eq_true cancels.1) cancels.2
  | _ => exact absurd cancels Bool.false_ne_true

theorem Happened.imp {hands : List Hand} {P Q : Hand → Channel → Prop} (past : Happened hands id P)
    (imp : ∀ h c, P h c → Q h c) : Happened hands id Q := by
  obtain ⟨before, h, rest, c, split, known, holds⟩ := past
  exact ⟨before, h, rest, c, split, known, imp h c holds⟩

/-- Whatever is done to the streams, a clean-up removes those that were opened longer ago than it allows,
and the finished ones whose reader was handed out; it cancels those of them that are too old and not
finished. Nothing else but the truncation of all streams removes or cancels one. So a reader sees a
truncation only if the writer left or its stream was cancelled for one of these reasons; and the reader of
a stream in use that a clean-up finds too old sees what has been sent, and then the truncation. -/
theorem cleanup_cuts_only_the_old (hands : List Hand) (id : String) (c : Channel)
    (known : (after hands).streams.get? id = some c) :
    (∃ before capacity rest, hands = before ++ .start capacity c.openedAt :: rest ∧
      (after before).streams.get? id = none) ∧
    (∀ now ttl, ∃ c', (after (hands ++ [.cleanup now ttl])).streams.get? id = some c' ∧
      (c'.listed = true ↔ c.listed = true ∧ now - c.openedAt ≤ ttl ∧
        (c.finished = true → c.reader = .parked)) ∧
      (c'.cancelled = true ↔ c.cancelled = true ∨
        c.listed = true ∧ ttl < now - c.openedAt ∧ c.finished = false)) ∧
    (c.listed = false → Happened hands id (GivenUp c.openedAt) ∧
      (c.finished = true ∨ c.cancelled = true)) ∧
    (c.cancelled = true → Happened hands id (Cut c.openedAt)) ∧
    (∀ k, .truncated k ∈ ((after hands).tape id).results →
      c.hasWriter = false ∨ c.cancelled = true) ∧
    ∀ now ttl, c.listed = true → c.reader = .claimed → c.finished = false → c.ended = false →
      (∀ x ∈ c.buffer, x.isFinal = false) → ttl < now - c.openedAt →
      ((after (hands ++ .cleanup now ttl :: .notice id ::
        List.replicate (c.buffer.length + 1) (.poll id))).tape id).results =
        ((after hands).tape id).results ++ c.buffer.map .chunk ++ [.truncated id] := by
  have explained := explained_after hands id c known
  refine ⟨explained.opened, fun now ttl => ?_, fun gone => ?_, fun cut => ?_, explained.truncated,
    fun now ttl listed claimed going reading plain old => ?_⟩
  · have shows := (shows_of_get? known).act (sound_after hands) (.cleanup now ttl)
    have kept := c.kept_clean now ttl
    refine ⟨c.clean now ttl, by rw [after_append]; exact shows.channel, ?_, ?_⟩
    · rw [kept.listed, Hand.removes, Channel.isDisposable, Channel.isExpired]
      cases c.listed <;> cases c.finished <;> simp
    · rw [kept.cancelled, Hand.cancels, Channel.isExpired]
      simp
  · refine ⟨(explained.removed gone).imp ?_, explained.settled gone⟩
    exact fun h c₀ ⟨same, _, removes⟩ => same ▸ givenUp_of_removes removes
  · exact (explained.cancelled cut).imp fun h c₀ ⟨same, _, cancels⟩ => same ▸ cut_of_cancels cancels
  · rw [after_append]
    exact cut_by_cleanup known listed claimed going reading plain old

/-- A stream is claimed, and its first chunk is written and read. -/
def longRead : List Hand :=
  [.start 1 0, .claim firstStream, .write firstStream .null false, .push firstStream,
    .finish firstStream, .poll firstStream]

/-- A clean-up finds the stream of `longRead` too old, and its reader goes on. -/
def cutRead : List Hand :=
  longRead ++ [.cleanup 61 60, .notice firstStream, .poll firstStream]

/-- The clean-up removes and cancels a stream that is read and written, and its reader sees a
truncation. -/
theorem cleanup_cuts_a_stream_in_use :
    ((after longRead).streams.get? firstStream).map (fun c => (c.listed, c.reader, c.finished)) =
      some (true, .claimed, false) ∧
    ((after longRead).streams.cleanup 61 60).1 = 1 ∧
    ((after (longRead ++ [.cleanup 61 60])).streams.get? firstStream).map
      (fun c => (c.listed, c.cancelled)) = some (false, true) ∧
    ((after cutRead).tape firstStream).results =
      [.chunk ⟨firstStream, 0, .null, false⟩, .truncated firstStream] :=
  ⟨rfl, rfl, rfl, rfl⟩

/-- The stream after `longRead`, and after `cutRead`. -/
def longReadChannel : Channel :=
  { Channel.fresh 1 0 with reader := .claimed, nextSeq := 1 }

def cutReadChannel : Channel :=
  { longReadChannel with listed := false, cancelled := true, closing := true, ended := true }

theorem cleanup_cuts_only_the_old_longRead :
    (after longRead).streams.get? firstStream = some longReadChannel ∧
    ((after (longRead ++ .cleanup 61 60 :: .notice firstStream ::
      List.replicate 1 (.poll firstStream))).tape firstStream).results =
        ((after longRead).tape firstStream).results ++ [.truncated firstStream] ∧
    (after cutRead).streams.get? firstStream = some cutReadChannel ∧
    Happened cutRead firstStream (GivenUp 0) ∧ Happened cutRead firstStream (Cut 0) ∧
    (cutReadChannel.hasWriter = false ∨ cutReadChannel.cancelled = true) := by
  have long : (after longRead).streams.get? firstStream = some longReadChannel := rfl
  have short : (after cutRead).streams.get? firstStream = some cutReadChannel := rfl
  obtain ⟨-, -, -, -, -, cut⟩ := cleanup_cuts_only_the_old longRead firstStream longReadChannel long
  obtain ⟨-, -, gone, cancelled, why, -⟩ :=
    cleanup_cuts_only_the_old cutRead firstStream cutReadChannel short
  exact ⟨long, cut 61 60 rfl rfl rfl rfl nofun (by decide), short, (gone rfl).1, cancelled rfl,
    why firstStream (List.mem_append_right _ (List.mem_singleton_self _))⟩

end Traffic

end Pipeworks
