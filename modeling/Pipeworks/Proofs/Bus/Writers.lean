import Pipeworks.Proofs.Bus.Hands

/-!
# Writers of streams

What others do leaves to the writer of a stream all that it goes by, except that the stream may come to take
no more chunks. From then on nothing is sent to it.
-/

namespace Pipeworks

/-! ## Streams that take no more chunks -/

/-- A stream that takes no more chunks never takes one again. -/
theorem Channel.Steps.shut {id : String} {c c' : Channel} {t t' : Tape}
    (steps : Channel.Steps id c t c' t') (shut : c.isOpen = false) :
    c'.isOpen = false ∧ t'.sent = t.sent := by
  cases steps with
  | still | refused | returned | writerLeft => exact ⟨shut, rfl⟩
  | began free held ok =>
    obtain ⟨-, -, rfl⟩ := number_ok ok
    exact ⟨shut, rfl⟩
  | pushed writing took => simp [push, shut] at took
  | claimed parked =>
    refine ⟨?_, rfl⟩
    simpa [isOpen, parked] using shut
  | @polled r c' found some =>
    obtain ⟨buffer, ended, same⟩ := c.poll_changes id
    obtain rfl : c' = { c with buffer, ended } := (congrArg Prod.snd found).symm.trans same
    exact ⟨shut, rfl⟩
  | noticed =>
    refine ⟨?_, rfl⟩
    simp only [isOpen, notice] at shut ⊢
    cases closing : c.closing <;> simp_all
  | readerLeft => exact ⟨by simp [isOpen, dropReader], rfl⟩
  | cleaned now ttl =>
    rw [clean]
    split
    · exact ⟨Bool.eq_false_iff.mpr fun here => by simp [(Tracks.forget c).1 here] at shut, rfl⟩
    · exact ⟨shut, rfl⟩
  | truncated =>
    rw [truncate]
    split
    · exact ⟨Bool.eq_false_iff.mpr fun here => by simp [(Tracks.forget c).1 here] at shut, rfl⟩
    · exact ⟨shut, rfl⟩

namespace Traffic

variable {s : Traffic} {id : String} {c : Channel}

theorem shut_act (sound : s.Sound) (known : s.streams.get? id = some c) (shut : c.isOpen = false)
    (h : Hand) : ∃ c', (s.act h).streams.get? id = some c' ∧ c'.isOpen = false ∧
      ((s.act h).tape id).sent = (s.tape id).sent := by
  cases (sound.goes h).moves id with
  | absent before | opened before => simp [known] at before
  | moved before after steps =>
    obtain rfl := Option.some.inj (known.symm.trans before)
    exact ⟨_, after, steps.shut shut⟩

theorem shut_foldl (sound : s.Sound) (known : s.streams.get? id = some c) (shut : c.isOpen = false)
    (hands : List Hand) : ∃ c', (hands.foldl act s).streams.get? id = some c' ∧ c'.isOpen = false ∧
      ((hands.foldl act s).tape id).sent = (s.tape id).sent := by
  induction hands generalizing s c with
  | nil => exact ⟨c, known, shut, rfl⟩
  | cons h hands ih =>
    obtain ⟨c₁, known₁, shut₁, sent₁⟩ := shut_act sound known shut h
    obtain ⟨c₂, known₂, shut₂, sent₂⟩ := ih (sound.step (sound.goes h)) known₁ shut₁
    exact ⟨c₂, known₂, shut₂, sent₂.trans sent₁⟩

end Traffic

/-! ## What others do -/

namespace Hand

variable {id : String} {c : Channel} {t : Tape} {h : Hand} {ids : List String}

/-- Whether this is up to the writer of one of some streams. -/
def writes (ids : List String) : Hand → Bool
  | write id _ _ | push id | finish id | dropWriter id => ids.contains id
  | _ => false

/-- What is not up to the writer of a stream leaves to it what it holds. -/
theorem writer_touch (other : h.writes ids = false) (one : id ∈ ids) :
    (h.touch id c t).1.hasWriter = c.hasWriter ∧ (h.touch id c t).1.finished = c.finished ∧
      (h.touch id c t).2.writing = t.writing ∧ (h.touch id c t).2.sent = t.sent := by
  rcases touch_cases h id c t with ⟨names, same⟩ | same
  · rw [same]
    cases h with
    | write k | push k | finish k | dropWriter k =>
      obtain rfl : k = id := by simpa [stream?] using names
      simp [writes, one] at other
    | start => exact ⟨rfl, rfl, rfl, rfl⟩
    | poll k =>
      obtain ⟨_, _, _, same⟩ := does_poll k id c t
      rw [same]
      exact ⟨rfl, rfl, rfl, rfl⟩
    | claim | notice | dropReader =>
      rw [does]
      split <;> exact ⟨rfl, rfl, rfl, rfl⟩
    | cleanup now ttl =>
      rw [does, Channel.clean]
      split <;> exact ⟨rfl, rfl, rfl, rfl⟩
    | truncateAll =>
      rw [does, Channel.truncate]
      split <;> exact ⟨rfl, rfl, rfl, rfl⟩
  · rw [same]
    exact ⟨rfl, rfl, rfl, rfl⟩

variable {chunk : Chunk}

theorem does_push_of_room (writing : t.writing = some (chunk, false)) (here : c.isOpen = true)
    (room : c.buffer.length < c.capacity) : (push id).does id c t =
      ({ c with buffer := c.buffer ++ [chunk] },
        { t with writing := some (chunk, true), sent := t.sent ++ [chunk] }) := by
  simp only [does, writing, Channel.push, here, room, Bool.not_true, Bool.false_eq_true, if_false, if_true]

theorem does_push_of_shut (writing : t.writing = some (chunk, false)) (shut : c.isOpen = false) :
    (push id).does id c t = (c, { t with writing := none }) := by
  simp only [does, writing, Channel.push, shut, Bool.not_false, if_true]

theorem does_finish (writing : t.writing = some (chunk, true)) : (finish id).does id c t =
    (c.conclude chunk, { t with writing := none, written := t.written ++ [chunk] }) := by
  rw [does, writing]

theorem does_finish_of_idle (idle : t.writing = none) : (finish id).does id c t = (c, t) := by
  rw [does, idle]

end Hand

namespace Traffic

variable {s : Traffic} {id : String} {c : Channel} {t : Tape} {h : Hand} {hands : List Hand}

/-- What is done to one stream leaves the others alone. -/
theorem Shows.act_other {k : String} (shows : s.Shows k c t) (sound : s.Sound)
    (names : h.stream? = some id) (other : k ≠ id) : (s.act h).Shows k c t := by
  have acted := shows.act sound h
  rw [Hand.touch, names, Option.all_some, beq_eq_false_iff_ne.mpr (Ne.symm other),
    if_neg Bool.false_ne_true] at acted
  exact acted

/-- What is done to one stream. -/
theorem Shows.act_own (shows : s.Shows id c t) (sound : s.Sound) (names : h.stream? = some id) :
    (s.act h).Shows id (h.does id c t).1 (h.does id c t).2 := by
  have acted := shows.act sound h
  rw [Hand.touch, names, Option.all_some, beq_self_eq_true, if_pos rfl] at acted
  exact acted

/-! ## New streams -/

/-- A stream of some capacity has been opened, and nobody has written to it since. -/
def Opened (hands : List Hand) (id : String) : Prop :=
  ∃ before capacity now after streams, hands = before ++ .start capacity now :: after ∧
    (Traffic.after before).streams.start capacity now = .ok (id, streams) ∧
    ∀ h ∈ after, h.writes [id] = false

/-- A stream that nothing has been written to, with its tape. -/
structure IsNew (c : Channel) (t : Tape) : Prop where
  writer : c.hasWriter = true
  unfinished : c.finished = false
  idle : t.writing = none
  sent : t.sent = []

/-- A stream stays new whatever others do. -/
theorem isNew_foldl (sound : s.Sound) (shows : s.Shows id c t) (new : IsNew c t)
    (others : ∀ h ∈ hands, h.writes [id] = false) :
    ∃ c' t', (hands.foldl Traffic.act s).Shows id c' t' ∧ IsNew c' t' := by
  induction hands generalizing s c t with
  | nil => exact ⟨c, t, shows, new⟩
  | cons h hands ih =>
    obtain ⟨first, rest⟩ := List.forall_mem_cons.mp others
    obtain ⟨writer, finished, writing, sent⟩ :=
      Hand.writer_touch (c := c) (t := t) first (List.mem_singleton_self id)
    exact ih (sound.step (sound.goes h)) (shows.act sound h) ⟨writer.trans new.writer,
      finished.trans new.unfinished, writing.trans new.idle, sent.trans new.sent⟩ rest

theorem isNew_of_opened (opened : Opened hands id) :
    ∃ c t, (Traffic.after hands).Shows id c t ∧ IsNew c t := by
  obtain ⟨before, capacity, now, after, streams, rfl, ok, others⟩ := opened
  have sound := sound_after before
  obtain ⟨-, new, ⟨room, fresh⟩, -⟩ := sound.numbered.start ok
  have start : (Traffic.after before).act (.start capacity now) = { Traffic.after before with streams } := by
    simp only [Traffic.act, ok]
  have shows : ((Traffic.after before).act (.start capacity now)).Shows id (.fresh room now) .blank := by
    rw [start]
    exact ⟨fresh, sound.unknown id new⟩
  rw [after_append, List.foldl_cons]
  exact isNew_foldl (sound.step (sound.goes _)) shows ⟨rfl, rfl, rfl, rfl⟩ others

end Traffic

end Pipeworks
