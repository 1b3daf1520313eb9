import Pipeworks.Bus.Adapter
import Pipeworks.Proofs.Bus.Beside
import Pipeworks.Proofs.Bus.Tally
import Pipeworks.Proofs.Bus.Writers

/-!
# Results that are written to several streams

A processor writes every chunk of its result to one stream after another, beside the readers of the
streams. A stream that refuses a chunk leaves, and the others go on. What becomes of the streams is told by
the calls of the processor: each has been taken by some streams, and has returned once every stream that
stayed was asked.
-/

namespace Pipeworks

variable {σ : Type}

/-! ## The work -/

/-- A call that has asked every stream succeeds just when a stream took the chunk. -/
theorem FanResult.outcome_ok {kept : List String} {last : Option Fault} (some : kept ≠ [] ∨ last ≠ none) :
    outcome ⟨kept, last⟩ = .ok () ↔ kept ≠ [] := by
  rw [outcome]
  cases last with
  | none => simpa using some
  | some e => cases kept <;> simp

theorem writeEach_cons (data : Json) (isFinal : Bool) (kept : List String) (last : Option Fault)
    (next : Except Fault Unit → List String → Work σ) (id : String) (rest : List String) :
    ∃ answer, writeEach data isFinal kept last next (id :: rest) = .write id data isFinal answer ∧
      answer (.ok ()) = writeEach data isFinal (kept ++ [id]) last next rest ∧
      ∀ e, answer (.error e) = .dropWriter id (writeEach data isFinal kept (some e) next rest) :=
  ⟨_, rfl, rfl, fun _ => rfl⟩

/-- The work that writes a result, by how the result goes on, the streams that have taken the chunk of the
call under way, those that stay, and those whose writers it holds. -/
inductive Fanning (name : String) :
    Streaming → List String → List String → List String → Stride σ → Prop where
  /-- A stream is next to get the chunk. -/
  | asking {data : Json} {isFinal : Bool} {next : Except Fault Unit → Streaming} {took : List String}
      {last : Option Fault} {id : String} {rest : List String} :
      Fanning name (.write data isFinal next) took (took ++ id :: rest) (took ++ id :: rest)
        (.on (.running (writeEach data isFinal took last (fun r => fanWork name (next r)) (id :: rest))))
  /-- The chunk is being sent to a stream. -/
  | sending {next : Except Fault Unit → Streaming} {took : List String} {last : Option Fault}
      {rest : List String} {chunk : Chunk} {answer : Except Fault Unit → Work σ}
      (taken : answer (.ok ()) = writeEach chunk.data chunk.isFinal (took ++ [chunk.stream]) last
        (fun r => fanWork name (next r)) rest)
      (refused : ∀ e, answer (.error e) = .dropWriter chunk.stream
        (writeEach chunk.data chunk.isFinal took (some e) (fun r => fanWork name (next r)) rest)) :
      Fanning name (.write chunk.data chunk.isFinal next) took (took ++ chunk.stream :: rest)
        (took ++ chunk.stream :: rest) (.on (.writing chunk answer))
  /-- A stream has refused the chunk. -/
  | leaving {data : Json} {isFinal : Bool} {next : Except Fault Unit → Streaming} {took : List String}
      {e : Fault} {id : String} {rest : List String} :
      Fanning name (.write data isFinal next) took (took ++ rest) (took ++ id :: rest)
        (.on (.running (.dropWriter id
          (writeEach data isFinal took (some e) (fun r => fanWork name (next r)) rest))))
  /-- The result is complete. -/
  | closing {o : Outcome Unit} {stay held : List String} :
      Fanning name (.finish o) [] stay held
        (.on (.running (.dropWriters held (.finish (Outcome.ofExcept (o.contained name))))))
  | ended {o : Outcome Unit} {stay : List String} :
      Fanning name (.finish o) [] stay [] (.ended (Outcome.ofExcept (o.contained name)))

/-- What the work is sending to a stream. -/
def Stride.sendingTo : Stride σ → String → Option (Chunk × Bool)
  | .on (.writing chunk _), id => if chunk.stream = id then some (chunk, false) else none
  | _, _ => none

/-! ## The streams -/

/-- A stream that is written to beside others, with its tape: what it has got, whether it stays, and whether
its writer is held. -/
structure Channel.Fed (c : Channel) (t : Tape) (chunks : List Chunk) (stays held : Prop)
    (writing : Option (Chunk × Bool)) : Prop where
  sent : t.sent = chunks
  writing : t.writing = writing
  final : c.finished = true → ∃ x ∈ chunks, x.isFinal = true
  left : ¬ stays → c.isOpen = false ∨ ∃ x ∈ chunks, x.isFinal = true
  held : held → c.hasWriter = true

namespace Traffic

variable {s s' : Traffic} {id : String} {c : Channel} {t : Tape} {h : Hand} {ids : List String}
  {calls calls' : List FanCall} {stay stay' held held' : List String}
  {sends sends' : String → Option (Chunk × Bool)}

theorem isFree_of_fed {chunks : List Chunk} {stays holds : Prop} (shows : s.Shows id c t)
    (fed : c.Fed t chunks stays holds none) (held : holds) : s.isFree id = true := by
  rw [isFree, shows.channel]
  simp [shows.tape, fed.writing, fed.held held]

/-- All streams that are written to, by the calls. -/
def Feeds (s : Traffic) (ids : List String) (calls : List FanCall) (stay held : List String)
    (sends : String → Option (Chunk × Bool)) : Prop :=
  ∀ id ∈ ids, ∃ c t, s.Shows id c t ∧
    c.Fed t (FanCall.chunks id calls) (id ∈ stay) (id ∈ held) (sends id)

/-- Something has been done to one of the streams. -/
theorem Feeds.change {c' : Channel} {t' : Tape} (feeds : s.Feeds ids calls stay held sends)
    (own : s'.Shows id c' t')
    (alone : ∀ k c t, k ≠ id → s.Shows k c t → s'.Shows k c t)
    (fed : c'.Fed t' (FanCall.chunks id calls') (id ∈ stay') (id ∈ held') (sends' id))
    (same : ∀ k ∈ ids, k ≠ id → FanCall.chunks k calls' = FanCall.chunks k calls ∧
      (k ∈ stay → k ∈ stay') ∧ (k ∈ held' → k ∈ held) ∧ sends' k = sends k) :
    s'.Feeds ids calls' stay' held' sends' := by
  intro k hk
  by_cases here : k = id
  · subst here
    exact ⟨c', t', own, fed⟩
  · obtain ⟨c, t, shows, fed⟩ := feeds k hk
    obtain ⟨chunks, stays, holds, sending⟩ := same k hk here
    refine ⟨c, t, alone k c t here shows, ?_⟩
    rw [chunks, sending]
    exact { fed with
      left := fun left => fed.left fun stay => left (stays stay)
      held := fun held => fed.held (holds held) }

/-- What others do is nothing to the writers. -/
theorem Feeds.act (feeds : s.Feeds ids calls stay held sends) (sound : s.Sound)
    (other : h.writes ids = false) : (s.act h).Feeds ids calls stay held sends := by
  intro id hid
  obtain ⟨c, t, shows, fed⟩ := feeds id hid
  have next := shows.act sound h
  obtain ⟨writer, finished, writing, sent⟩ := Hand.writer_touch (c := c) (t := t) other hid
  refine ⟨_, _, next, sent.trans fed.sent, writing.trans fed.writing, ?_, ?_, ?_⟩
  · rw [finished]
    exact fed.final
  · refine fun left => (fed.left left).imp_left fun shut => ?_
    obtain ⟨c', known, shut, -⟩ := shut_act sound shows.channel shut h
    obtain rfl := Option.some.inj (known.symm.trans next.channel)
    exact shut
  · rw [writer]
    exact fed.held

/-- Calls by which every stream gets the same are as good. -/
theorem Feeds.recount (feeds : s.Feeds ids calls stay held sends)
    (same : ∀ id ∈ ids, FanCall.chunks id calls' = FanCall.chunks id calls) :
    s.Feeds ids calls' stay held sends := by
  intro id hid
  rw [same id hid]
  exact feeds id hid

/-- The writer of a stream is let go. -/
theorem Feeds.drop (feeds : s.Feeds ids calls stay held fun _ => none) (sound : s.Sound) (one : id ∈ ids)
    (mem : id ∈ held) (fewer : ∀ k ∈ held', k ∈ held ∧ k ≠ id) :
    (s.act (.dropWriter id)).Feeds ids calls stay held' fun _ => none := by
  obtain ⟨c, t, shows, fed⟩ := feeds id one
  have own := shows.act_own sound (h := .dropWriter id) rfl
  have able : (c.hasWriter && t.writing.isNone) = true := by simp [fed.held mem, fed.writing]
  rw [Hand.does, if_pos able] at own
  refine feeds.change own (fun k c t other shows => shows.act_other sound rfl other) ?_ fun k _ _ => ?_
  · exact { fed with held := fun held => absurd rfl (fewer id held).2 }
  · exact ⟨rfl, fun stays => stays, fun holds => (fewer k holds).1, rfl⟩

end Traffic

/-! ## Steps -/

namespace Activity

variable {f f' : Floor σ} {stride : Stride σ} {c : Channel} {answer : Except Fault Unit → Work σ}

/-- What comes of a write that begins. -/
theorem step_write {id : String} {data : Json} {isFinal : Bool}
    (known : f.bus.streams.get? id = some c)
    (step : step? f (.running (.write id data isFinal answer)) = some (stride, f')) :
    c.finished = true ∧ (∃ e, stride = .on (.running (answer (.error e)))) ∨
      c.finished = false ∧ stride = .on (.writing ⟨id, c.nextSeq, data, isFinal⟩ answer) := by
  rw [step?, workStep?, Streams.number_of_get? known, Channel.number] at step
  cases finished : c.finished with
  | true =>
    rw [if_pos finished] at step
    obtain ⟨rfl, -⟩ := Prod.mk.inj (Option.some.inj step)
    exact .inl ⟨rfl, _, rfl⟩
  | false =>
    rw [if_neg (by simp [finished])] at step
    obtain ⟨rfl, -⟩ := Prod.mk.inj (Option.some.inj step)
    exact .inr ⟨rfl, rfl⟩

/-- What comes of a chunk that is sent. -/
theorem step_writing {chunk : Chunk} (known : f.bus.streams.get? chunk.stream = some c)
    (step : step? f (.writing chunk answer) = some (stride, f')) :
    c.isOpen = true ∧ c.buffer.length < c.capacity ∧ stride = .on (.running (answer (.ok ()))) ∨
      c.isOpen = false ∧ ∃ e, stride = .on (.running (answer (.error e))) := by
  rw [step?, Streams.send, Streams.push_of_get? known, Channel.push] at step
  cases here : c.isOpen with
  | false =>
    rw [here] at step
    obtain ⟨rfl, -⟩ := Prod.mk.inj (Option.some.inj step)
    exact .inr ⟨rfl, _, rfl⟩
  | true =>
    rw [here, Bool.not_true, if_neg Bool.false_ne_true] at step
    by_cases room : c.buffer.length < c.capacity
    · rw [if_pos room] at step
      obtain ⟨rfl, -⟩ := Prod.mk.inj (Option.some.inj step)
      exact .inl ⟨rfl, room, rfl⟩
    · rw [if_neg room] at step
      simp at step

/-- Who sends a chunk waits only for room in a stream that is read. -/
theorem stuck_writing {chunk : Chunk} (known : f.bus.streams.get? chunk.stream = some c)
    (stuck : step? f (.writing chunk answer) = none) :
    c.isOpen = true ∧ c.capacity ≤ c.buffer.length := by
  rw [step?, Streams.send, Streams.push_of_get? known, Channel.push] at stuck
  cases here : c.isOpen with
  | false =>
    rw [here] at stuck
    simp [onStreams, onBus] at stuck
  | true =>
    rw [here, Bool.not_true, if_neg Bool.false_ne_true] at stuck
    by_cases room : c.buffer.length < c.capacity
    · rw [if_pos room] at stuck
      simp [onStreams, onBus] at stuck
    · exact ⟨rfl, Nat.le_of_not_lt room⟩

end Activity

/-- A result that is written to several streams beside everybody else. -/
structure FanOut (name : String) (tree : Streaming) (ids : List String) (calls : List FanCall)
    (t : Streaming) (took stay held : List String) (s : Beside σ) : Prop where
  work : Fanning name t took stay held s.work
  sound : s.traffic.Sound
  made : tree.Makes calls t
  tally : FanCall.Tally ids calls (t.underWay took) stay
  nodup : held.Nodup
  among : held ⊆ ids
  feeds : s.traffic.Feeds ids (calls ++ t.underWay took) stay held s.work.sendingTo

/-- As before, whatever the calls are. -/
def FansOut (name : String) (tree : Streaming) (ids : List String) (s : Beside σ) : Prop :=
  ∃ calls t took stay held, FanOut name tree ids calls t took stay held s

namespace FanOut

variable {name : String} {tree t : Streaming} {ids took stay held rest kept : List String}
  {calls : List FanCall} {s : Beside σ} {a : Activity σ} {floor : Floor σ}
  {data : Json} {isFinal : Bool} {next : Except Fault Unit → Streaming} {last : Option Fault}

/-- All calls have returned, and the result goes on with the streams that stay. -/
theorem fansOut_fanWork (sound : s.traffic.Sound) (nodup : kept.Nodup)
    (work : s.work = .on (.running (fanWork name t kept))) (made : tree.Makes calls t)
    (tally : FanCall.Tally ids calls [] kept)
    (feeds : s.traffic.Feeds ids calls kept kept fun _ => none) : FansOut name tree ids s := by
  induction t generalizing calls with
  | finish o =>
    refine ⟨calls, .finish o, [], kept, kept, ?_, sound, made, tally, nodup, tally.staying, ?_⟩
    · rw [work]
      exact .closing
    · rw [work, Streaming.underWay, List.append_nil]
      exact feeds
  | write data isFinal next ih =>
    cases kept with
    | nil =>
      -- a call without streams fails at once
      have result : (Except.error (.run .noOutputStream) : Except Fault Unit) = .ok () ↔
          ([] : List String) ≠ [] := by simp
      refine ih _ work (made.returned [] _) (tally.start.finish (r := none) result) ?_
      exact feeds.recount fun id _ => FanCall.chunks_of_refused (List.not_mem_nil)
    | cons id rest =>
      refine ⟨calls, .write data isFinal next, [], id :: rest, id :: rest, ?_, sound, made,
        tally.start, nodup, tally.staying, ?_⟩
      · rw [work]
        exact @Fanning.asking σ name data isFinal next [] none id rest
      · rw [work]
        exact feeds.recount fun id _ => FanCall.chunks_of_refused (List.not_mem_nil)

/-- A stream has been asked, and the call goes on with the others. -/
theorem fansOut_writeEach (sound : s.traffic.Sound) (nodup : (took ++ rest).Nodup)
    (work : s.work =
      .on (.running (writeEach data isFinal took last (fun r => fanWork name (next r)) rest)))
    (asked : took ≠ [] ∨ last ≠ none) (made : tree.Makes calls (.write data isFinal next))
    (tally : FanCall.Tally ids calls [⟨data, isFinal, took, none⟩] (took ++ rest))
    (feeds : s.traffic.Feeds ids (calls ++ [⟨data, isFinal, took, none⟩]) (took ++ rest) (took ++ rest)
      fun _ => none) : FansOut name tree ids s := by
  cases rest with
  | nil =>
    rw [List.append_nil] at nodup tally feeds
    refine fansOut_fanWork sound nodup work (made.returned took _)
      (tally.finish (FanResult.outcome_ok asked)) ?_
    exact feeds.recount fun id _ => FanCall.chunks_congr Iff.rfl
  | cons id rest =>
    refine ⟨calls, _, took, _, _, ?_, sound, made, tally, nodup, tally.staying, ?_⟩
    · rw [work]
      exact .asking
    · rw [work]
      exact feeds

theorem isFree {id : String} (fan : FanOut name tree ids calls t took stay held s) {w : Work σ}
    (on : s.work = .on (.running w)) (mem : id ∈ held) : s.traffic.isFree id = true := by
  obtain ⟨c, tape, shows, fed⟩ := fan.feeds id (fan.among mem)
  rw [on] at fed
  exact Traffic.isFree_of_fed shows fed mem

theorem writing_of_sending {chunk : Chunk} {answer : Except Fault Unit → Work σ}
    (fan : FanOut name tree ids calls t took stay held s) (on : s.work = .on (.writing chunk answer))
    (mem : chunk.stream ∈ held) : (s.traffic.tape chunk.stream).writing = some (chunk, false) := by
  obtain ⟨c, tape, shows, fed⟩ := fan.feeds chunk.stream (fan.among mem)
  rw [shows.tape, fed.writing, on]
  exact if_pos rfl

/-- The work holds the writers that its next step uses. -/
theorem holds (fan : FanOut name tree ids calls t took stay held s) (on : s.work = .on a) :
    a.Holds s.traffic := by
  have work := fan.work
  rw [on] at work
  cases work with
  | asking =>
    exact fan.isFree on (by simp)
  | sending =>
    exact fan.writing_of_sending on (by simp)
  | leaving =>
    exact fan.isFree on (by simp)
  | @closing o stay held =>
    cases held with
    | nil => trivial
    | cons id held => exact fan.isFree on List.mem_cons_self

variable {s' : Beside σ}

/-- A stream has refused the chunk of the call under way. -/
theorem refuse {id : String} {e : Fault}
    (fan : FanOut name tree ids calls (.write data isFinal next) took (took ++ id :: rest)
      (took ++ id :: rest) s)
    (work : s'.work = .on (.running (.dropWriter id
      (writeEach data isFinal took (some e) (fun r => fanWork name (next r)) rest))))
    (sound : s'.traffic.Sound)
    (feeds : s'.traffic.Feeds ids (calls ++ [⟨data, isFinal, took, none⟩]) (took ++ rest)
      (took ++ id :: rest) fun _ => none) : FansOut name tree ids s' := by
  refine ⟨calls, _, took, took ++ rest, took ++ id :: rest, ?_, sound, fan.made, fan.tally.leave (by simp),
    fan.nodup, fan.among, ?_⟩
  · rw [work]
    exact .leaving
  · rw [work]
    exact feeds

/-- A stream that stays is asked to take the chunk. -/
theorem ask {id : String} {answer : Except Fault Unit → Work σ}
    (fan : FanOut name tree ids calls (.write data isFinal next) took (took ++ id :: rest)
      (took ++ id :: rest) s)
    (on : s.work = .on (.running (.write id data isFinal answer)))
    (taken : answer (.ok ()) =
      writeEach data isFinal (took ++ [id]) last (fun r => fanWork name (next r)) rest)
    (refused : ∀ e, answer (.error e) =
      .dropWriter id (writeEach data isFinal took (some e) (fun r => fanWork name (next r)) rest))
    (step : Activity.step? s.floor (.running (.write id data isFinal answer)) = some (s'.work, floor))
    (traffic : s'.traffic = s.traffic.act (.write id data isFinal)) : FansOut name tree ids s' := by
  have mem : id ∈ took ++ id :: rest := by simp
  have sound := fan.sound.step (fan.sound.goes (.write id data isFinal))
  have feeds := fan.feeds
  rw [on] at feeds
  obtain ⟨c, tape, shows, fed⟩ := feeds id (fan.among mem)
  have own := shows.act_own fan.sound (h := .write id data isFinal) rfl
  have able : (c.hasWriter && tape.writing.isNone) = true := by
    rw [fed.held mem, fed.writing]
    rfl
  rw [Hand.does, if_pos able, Channel.number] at own
  have alone (k c t) (other : k ≠ id) (shows : s.traffic.Shows k c t) :
      (s.traffic.act (.write id data isFinal)).Shows k c t := shows.act_other fan.sound rfl other
  rw [← traffic] at sound own alone
  obtain ⟨finished, e, work⟩ | ⟨going, work⟩ := Activity.step_write shows.channel step
  · -- the stream is finished, so it leaves
    rw [if_pos finished] at own
    refine fan.refuse (refused e ▸ work) sound
      (feeds.change own alone ?_ fun k hk other => ⟨rfl, ?_, fun holds => holds, rfl⟩)
    · exact { fed with left := fun _ => .inr (fed.final finished) }
    · simp [other]
  · rw [if_neg (by simp [going])] at own
    refine ⟨calls, _, took, took ++ id :: rest, took ++ id :: rest, ?_, sound, fan.made, fan.tally, fan.nodup,
      fan.among, ?_⟩
    · rw [work]
      exact @Fanning.sending σ name next took last rest ⟨id, c.nextSeq, data, isFinal⟩ answer taken refused
    · rw [work]
      refine feeds.change own alone ?_ fun k hk other => ⟨rfl, fun stays => stays, fun holds => holds, ?_⟩
      · exact { fed with writing := (if_pos rfl).symm }
      · exact if_neg (Ne.symm other)

/-- The chunk that is being sent comes next at its stream, and no call before was final. -/
theorem next_chunk {chunk : Chunk} {c : Channel}
    (fan : FanOut name tree ids calls (.write chunk.data chunk.isFinal next) took
      (took ++ chunk.stream :: rest) (took ++ chunk.stream :: rest) s)
    (writing : (s.traffic.tape chunk.stream).writing = some (chunk, false))
    (known : s.traffic.streams.get? chunk.stream = some c) (here : c.isOpen = true) :
    c.finished = false ∧ (∀ call ∈ calls, call.isFinal = false) ∧
      FanCall.chunks chunk.stream
        (calls ++ [⟨chunk.data, chunk.isFinal, took ++ [chunk.stream], none⟩]) =
        FanCall.chunks chunk.stream (calls ++ [⟨chunk.data, chunk.isFinal, took, none⟩]) ++ [chunk] := by
  have mem : chunk.stream ∈ took ++ chunk.stream :: rest := by simp
  have tracks := fan.sound.known _ c known
  obtain ⟨c', tape, shows, fed⟩ := fan.feeds chunk.stream (fan.among mem)
  have fresh : chunk.stream ∉ took := fun took =>
    (List.nodup_cons.mp (List.perm_middle.nodup_iff.mp fan.nodup)).1 (List.mem_append_left _ took)
  have before : FanCall.chunks chunk.stream (calls ++ [⟨chunk.data, chunk.isFinal, took, none⟩]) =
      FanCall.chunks chunk.stream calls := FanCall.chunks_of_refused fresh
  have going : c.finished = false := (tracks.going (by simp [writing])).2
  have plain := tracks.plain_sent going (by rw [Tape.returning, writing])
  have seq : chunk.seq = _ := (tracks.next here).2 chunk writing
  rw [shows.tape, fed.sent, Streaming.underWay, before] at seq plain
  refine ⟨going, fun call made => Bool.eq_false_iff.mpr fun final => ?_, ?_⟩
  · obtain ⟨x, hx, last⟩ := FanCall.final_mem_chunks made (fan.tally.stays call made mem) final
    simp [plain x hx] at last
  · rw [FanCall.chunks_of_taken (List.mem_append_right _ (List.mem_singleton_self _)), before, ← seq]

/-- A stream takes the chunk that is being sent, or leaves. -/
theorem send {chunk : Chunk} {answer : Except Fault Unit → Work σ}
    (fan : FanOut name tree ids calls (.write chunk.data chunk.isFinal next) took
      (took ++ chunk.stream :: rest) (took ++ chunk.stream :: rest) s)
    (on : s.work = .on (.writing chunk answer))
    (taken : answer (.ok ()) = writeEach chunk.data chunk.isFinal (took ++ [chunk.stream]) last
      (fun r => fanWork name (next r)) rest)
    (refused : ∀ e, answer (.error e) = .dropWriter chunk.stream
      (writeEach chunk.data chunk.isFinal took (some e) (fun r => fanWork name (next r)) rest))
    (step : Activity.step? s.floor (.writing chunk answer) = some (s'.work, floor))
    (traffic : s'.traffic = (s.traffic.act (.push chunk.stream)).act (.finish chunk.stream)) :
    FansOut name tree ids s' := by
  have mem : chunk.stream ∈ took ++ chunk.stream :: rest := by simp
  have pushed := fan.sound.step (fan.sound.goes (.push chunk.stream))
  have sound := pushed.step (pushed.goes (.finish chunk.stream))
  have feeds := fan.feeds
  obtain ⟨c, tape, shows, fed⟩ := feeds chunk.stream (fan.among mem)
  have writing : tape.writing = some (chunk, false) := shows.tape ▸ fan.writing_of_sending on mem
  have others (k : String) (other : k ≠ chunk.stream) : none = s.work.sendingTo k := by
    rw [on]
    exact (if_neg (Ne.symm other)).symm
  have own := (shows.act_own fan.sound (h := .push chunk.stream) rfl).act_own pushed
    (h := .finish chunk.stream) rfl
  have alone (k c t) (other : k ≠ chunk.stream) (shows : s.traffic.Shows k c t) :
      ((s.traffic.act (.push chunk.stream)).act (.finish chunk.stream)).Shows k c t :=
    (shows.act_other fan.sound rfl other).act_other pushed rfl other
  rw [← traffic] at sound own alone
  obtain ⟨here, room, work⟩ | ⟨shut, e, work⟩ := Activity.step_writing shows.channel step
  · rw [Hand.does_push_of_room writing here room, Hand.does_finish rfl] at own
    obtain ⟨going, more, gets⟩ := fan.next_chunk (fan.writing_of_sending on mem) shows.channel here
    have parts : took ++ chunk.stream :: rest = took ++ [chunk.stream] ++ rest := List.append_cons ..
    refine fansOut_writeEach sound (parts ▸ fan.nodup) (taken ▸ work) (.inl (by simp)) fan.made
      (parts ▸ fan.tally.take mem more) ?_
    rw [← parts]
    refine feeds.change own alone ⟨?_, rfl, fun full => ?_, fun left => absurd mem left,
      fun _ => fed.held mem⟩ fun k hk other => ⟨?_, fun stays => stays, fun holds => holds, others k other⟩
    · exact (congrArg (· ++ [chunk]) fed.sent).trans gets.symm
    · refine ⟨chunk, gets ▸ by simp, ?_⟩
      simpa [Channel.conclude, going] using full
    · exact FanCall.chunks_congr (by simp [other])
  · rw [Hand.does_push_of_shut writing shut, Hand.does_finish_of_idle rfl] at own
    refine fan.refuse (refused e ▸ work) sound
      (feeds.change own alone ?_ fun k hk other => ⟨rfl, ?_, fun holds => holds, others k other⟩)
    · exact { fed with writing := rfl, left := fun _ => .inl shut }
    · simp [other]

/-- A stream that has refused the chunk is let go. -/
theorem release {id : String} {e : Fault}
    (fan : FanOut name tree ids calls (.write data isFinal next) took (took ++ rest) (took ++ id :: rest) s)
    {w : Work σ} (on : s.work = .on (.running w))
    (work : s'.work = .on (.running
      (writeEach data isFinal took (some e) (fun r => fanWork name (next r)) rest)))
    (traffic : s'.traffic = s.traffic.act (.dropWriter id)) : FansOut name tree ids s' := by
  have mem : id ∈ took ++ id :: rest := by simp
  obtain ⟨alone, nodup⟩ := List.nodup_cons.mp (List.perm_middle.nodup_iff.mp fan.nodup)
  have feeds := fan.feeds
  rw [on] at feeds
  refine fansOut_writeEach ?_ nodup work (.inr (by simp)) fan.made fan.tally ?_
  · rw [traffic]
    exact fan.sound.step (fan.sound.goes (.dropWriter id))
  · rw [traffic]
    refine feeds.drop fan.sound (fan.among mem) mem fun k hk => ⟨?_, ne_of_mem_of_not_mem hk alone⟩
    exact List.mem_append.mpr ((List.mem_append.mp hk).imp_right (.tail _))

/-- The result is complete, and the writer of a stream is let go. -/
theorem close {o : Outcome Unit} {id : String}
    (fan : FanOut name tree ids calls (.finish o) [] stay (id :: held) s)
    {w : Work σ} (on : s.work = .on (.running w))
    (work : s'.work = .on (.running (.dropWriters held (.finish (Outcome.ofExcept (o.contained name))))))
    (traffic : s'.traffic = s.traffic.act (.dropWriter id)) : FansOut name tree ids s' := by
  obtain ⟨alone, nodup⟩ := List.nodup_cons.mp fan.nodup
  obtain ⟨one, among⟩ := List.cons_subset.mp fan.among
  have feeds := fan.feeds
  rw [on] at feeds
  refine ⟨calls, _, [], stay, held, ?_, ?_, fan.made, fan.tally, nodup, among, ?_⟩
  · rw [work]
    exact .closing
  · rw [traffic]
    exact fan.sound.step (fan.sound.goes (.dropWriter id))
  · rw [work, traffic]
    exact feeds.drop fan.sound one List.mem_cons_self
      fun k hk => ⟨.tail _ hk, ne_of_mem_of_not_mem hk alone⟩

/-- Every step of the work leaves it writing as it should. -/
theorem step (fan : FanOut name tree ids calls t took stay held s) (on : s.work = .on a)
    (step : a.step? s.floor = some (s'.work, floor))
    (traffic : s'.traffic = (a.hands s.floor).foldl Traffic.act s.traffic) : FansOut name tree ids s' := by
  have work := fan.work
  rw [on] at work
  cases work with
  | @asking data isFinal next took last id rest =>
    obtain ⟨answer, is, taken, refused⟩ :=
      writeEach_cons data isFinal took last (fun r => (fanWork name (next r) : List String → Work σ)) id rest
    rw [is] at on step
    exact fan.ask on taken refused step traffic
  | sending taken refused =>
    exact fan.send on taken refused step traffic
  | leaving =>
    exact fan.release on (Prod.mk.inj (Option.some.inj step)).1.symm traffic
  | @closing o stay held =>
    cases held with
    | cons id held => exact fan.close on (Prod.mk.inj (Option.some.inj step)).1.symm traffic
    | nil =>
      have next := (Prod.mk.inj (Option.some.inj step)).1.symm
      have feeds := fan.feeds
      rw [on] at feeds
      have same : s'.traffic = s.traffic := traffic
      refine ⟨calls, .finish o, [], stay, [], ?_, ?_, fan.made, fan.tally, fan.nodup, fan.among, ?_⟩
      · rw [next]
        exact .ended
      · rw [same]
        exact fan.sound
      · rw [next, same]
        exact feeds

/-- Who writes waits only for room in a stream that is read. -/
theorem waits (fan : FanOut name tree ids calls t took stay held s) (on : s.work = .on a)
    (stuck : a.step? s.floor = none) : ∃ chunk answer c, a = .writing chunk answer ∧ chunk.stream ∈ ids ∧
      s.floor.bus.streams.get? chunk.stream = some c ∧ c.isOpen = true ∧ c.capacity ≤ c.buffer.length := by
  have work := fan.work
  rw [on] at work
  cases work with
  | @asking data isFinal next took last id rest =>
    obtain ⟨answer, is, -⟩ :=
      writeEach_cons data isFinal took last (fun r => (fanWork name (next r) : List String → Work σ)) id rest
    rw [is, Activity.step?, Activity.workStep?] at stuck
    split at stuck <;> simp at stuck
  | @sending next took last rest chunk answer =>
    have mem : chunk.stream ∈ ids := fan.among (by simp)
    obtain ⟨c, tape, shows, -⟩ := fan.feeds chunk.stream mem
    exact ⟨chunk, answer, c, rfl, mem, shows.channel, Activity.stuck_writing shows.channel stuck⟩
  | leaving =>
    simp [Activity.step?, Activity.workStep?, Activity.onStreams, Activity.onBus] at stuck
  | @closing o stay held =>
    cases held <;> simp [Work.dropWriters, Activity.step?, Activity.workStep?, Activity.onStreams,
      Activity.onBus] at stuck

end FanOut

namespace FansOut

variable {α : Type} {part : σ → α} {name : String} {tree : Streaming} {ids : List String} {s s' : Beside σ}

theorem turn (fans : FansOut name tree ids s) (turn : Beside.Turn (Hand.writes ids) part s s') :
    FansOut name tree ids s' := by
  obtain ⟨calls, t, took, stay, held, fan⟩ := fans
  cases turn with
  | stepped on step =>
    exact fan.step on step (Beside.traffic_stepped (fan.holds on) step)
  | @handled h other =>
    exact ⟨calls, t, took, stay, held, { fan with
      sound := fan.sound.step (fan.sound.goes h)
      feeds := fan.feeds.act fan.sound other }⟩
  | @elsewhere floor streams same =>
    have traffic : Beside.traffic { s with floor } = s.traffic := by
      rw [Beside.traffic, streams]
      rfl
    exact ⟨calls, t, took, stay, held, { fan with
      sound := traffic ▸ fan.sound
      feeds := traffic ▸ fan.feeds }⟩

theorem reaches (fans : FansOut name tree ids s) (reached : Beside.Reaches (Hand.writes ids) part s s') :
    FansOut name tree ids s' := by
  induction reached with
  | refl => exact fans
  | tail _ turn ih => exact ih.turn turn

/-- What happens in a turn is done by some hands. -/
theorem hands_of_turn (fans : FansOut name tree ids s) (turn : Beside.Turn (Hand.writes ids) part s s') :
    ∃ hands : List Hand, s'.traffic = hands.foldl Traffic.act s.traffic := by
  obtain ⟨calls, t, took, stay, held, fan⟩ := fans
  cases turn with
  | stepped on step => exact ⟨_, Beside.traffic_stepped (fan.holds on) step⟩
  | @handled h other => exact ⟨[h], rfl⟩
  | @elsewhere floor streams same =>
    refine ⟨[], ?_⟩
    rw [Beside.traffic, streams]
    rfl

/-- Nothing is ever sent again to a stream that takes no more chunks. -/
theorem shut_reaches (fans : FansOut name tree ids s) {id : String} {c : Channel}
    (known : s.traffic.streams.get? id = some c) (shut : c.isOpen = false)
    (reached : Beside.Reaches (Hand.writes ids) part s s') :
    ∃ c', s'.traffic.streams.get? id = some c' ∧ c'.isOpen = false ∧
      (s'.tape id).sent = (s.tape id).sent := by
  induction reached with
  | refl => exact ⟨c, known, shut, rfl⟩
  | tail before turn ih =>
    obtain ⟨c₁, known₁, shut₁, sent₁⟩ := ih
    have now := fans.reaches before
    obtain ⟨hands, same⟩ := now.hands_of_turn turn
    obtain ⟨calls, t, took, stay, held, fan⟩ := now
    obtain ⟨c₂, known₂, shut₂, sent₂⟩ := Traffic.shut_foldl fan.sound known₁ shut₁ hands
    rw [← same] at known₂ sent₂
    exact ⟨c₂, known₂, shut₂, sent₂.trans sent₁⟩

end FansOut

/-- A result is to be written to streams that have just been opened. -/
theorem fansOut_opened {hands : List Hand} {ids : List String} (distinct : ids.Nodup)
    (opened : ∀ id ∈ ids, Traffic.Opened hands id) {floor : Floor σ}
    (streams : floor.bus.streams = (Traffic.after hands).streams) (name : String) (tree : Streaming) :
    FansOut name tree ids
      ⟨floor, (Traffic.after hands).tape, .on (.running (fanWork name tree ids)), 0⟩ := by
  have traffic : Beside.traffic ⟨floor, (Traffic.after hands).tape,
      .on (.running (fanWork name tree ids)), 0⟩ = Traffic.after hands := by
    rw [Beside.traffic, streams]
  have tally : FanCall.Tally ids [] [] ids := by
    refine ⟨List.Pairwise.nil, ?_, ?_, ?_, List.Subset.refl _⟩ <;> simp
  refine FanOut.fansOut_fanWork ?_ distinct rfl .none tally ?_
  · rw [traffic]
    exact Traffic.sound_after hands
  · rw [traffic]
    intro id hid
    obtain ⟨c, t, shows, new⟩ := Traffic.isNew_of_opened (opened id hid)
    refine ⟨c, t, shows, new.sent, new.idle, fun full => ?_, fun left => absurd hid left, fun _ => new.writer⟩
    simp [new.unfinished] at full

/-! ## What streams get -/

/-- What has become of some streams by the calls that write to them. -/
structure Fanned (ids : List String) (s : Beside σ) (calls : List FanCall) : Prop where
  among : ∀ call ∈ calls, call.takers ⊆ ids
  /-- A stream takes the chunks of the first calls, numbered from 0, and then none; its reader sees them. -/
  gets : ∀ id ∈ ids, ∃ before after, calls = before ++ after ∧ (∀ call ∈ before, id ∈ call.takers) ∧
    (∀ call ∈ after, id ∉ call.takers) ∧ (s.tape id).sent = FanCall.pieces id before ∧
    Seen id (FanCall.pieces id before) (s.tape id).results
  /-- A stream that can be read has taken every chunk, up to a final one. -/
  stays : ∀ id ∈ ids, ∀ c, s.floor.bus.streams.get? id = some c → c.isOpen = true →
    (∃ x ∈ (s.tape id).sent, x.isFinal = true) ∨ ∀ call ∈ calls, call.result ≠ none → id ∈ call.takers
  returns : ∀ call ∈ calls, ∀ r, call.result = some r → (r = .ok () ↔ call.takers ≠ [])
  /-- After a final chunk every call fails, and its chunk is taken by nobody. -/
  closes : calls.Pairwise fun a b => a.isFinal = true → b.takers = [] ∧ b.result ≠ some (.ok ())

theorem FanOut.fanned {name : String} {tree t : Streaming} {ids took stay held : List String}
    {calls : List FanCall} {s : Beside σ} (fan : FanOut name tree ids calls t took stay held s) :
    Fanned ids s (calls ++ t.underWay took) := by
  have under (call) (now : call ∈ t.underWay took) : call.result = none := by
    cases t with
    | finish => cases now
    | write => rw [List.mem_singleton.mp now]
  have returns : ∀ call ∈ calls ++ t.underWay took, ∀ r, call.result = some r →
      (r = .ok () ↔ call.takers ≠ []) := by
    intro call made r returned
    rcases List.mem_append.mp made with before | now
    · obtain ⟨r', result, right⟩ := fan.tally.results call before
      obtain rfl := Option.some.inj (returned.symm.trans result)
      exact right
    · simp [under call now] at returned
  refine ⟨fan.tally.among, fun id hid => ?_, fun id hid c known here => ?_, returns, ?_⟩
  · obtain ⟨c, tape, shows, fed⟩ := fan.feeds id hid
    obtain ⟨before, after, split, took, left, chunks⟩ := FanCall.taken_first id fan.tally.follows
    have sent : (s.tape id).sent = FanCall.pieces id before := by
      rw [← chunks, ← fed.sent, ← shows.tape]
      rfl
    exact ⟨before, after, split, took, left, sent, sent ▸ (fan.sound.tape id).2.2.2⟩
  · obtain ⟨c', tape, shows, fed⟩ := fan.feeds id hid
    obtain rfl : c = c' := Option.some.inj (known.symm.trans shows.channel)
    by_cases stays : id ∈ stay
    · refine .inr fun call made returned => ?_
      rcases List.mem_append.mp made with before | now
      · exact fan.tally.stays call before stays
      · exact absurd (under call now) returned
    · refine .inl ?_
      have sent : (s.tape id).sent = _ := (congrArg Tape.sent shows.tape).trans fed.sent
      rw [sent]
      exact (fed.left stays).resolve_left (by simp [here])
  · refine fan.tally.follows.imp_of_mem fun {a b} ha hb follows final => ?_
    have none := follows.final final
    refine ⟨none, fun ok => ?_⟩
    exact (returns b hb _ ok).mp rfl none

/-- When a result is written to streams that have just been opened, whatever the others do meanwhile: the
processor makes the calls that follow from what they return, and each stream gets the chunks of all of them
until it leaves. The work never waits but for room in a stream that can be read, and to a stream that
cannot be read any more nothing is sent. -/
theorem every_stream_gets_all_until_it_leaves (name : String) (tree : Streaming) (hands : List Hand)
    (ids : List String) (distinct : ids.Nodup) (opened : ∀ id ∈ ids, Traffic.Opened hands id)
    (floor : Floor σ) (streams : floor.bus.streams = (Traffic.after hands).streams) (s : Beside σ)
    (reached : Beside.Reaches (Hand.writes ids) (fun _ => ()) ⟨floor, (Traffic.after hands).tape,
      .on (.running (fanWork name tree ids)), 0⟩ s) :
    (∃ calls t took, tree.Makes calls t ∧ Fanned ids s (calls ++ t.underWay took) ∧
      ∀ out, s.work = .ended out → ∃ o, t = .finish o ∧ out = Outcome.ofExcept (o.contained name)) ∧
    (∀ a, s.work = .on a → a.step? s.floor = none → ∃ chunk answer c, a = .writing chunk answer ∧
      chunk.stream ∈ ids ∧ s.floor.bus.streams.get? chunk.stream = some c ∧ c.isOpen = true ∧
      c.capacity ≤ c.buffer.length) ∧
    ∀ id c, s.floor.bus.streams.get? id = some c → c.isOpen = false →
      ∀ s', Beside.Reaches (Hand.writes ids) (fun _ => ()) s s' → (s'.tape id).sent = (s.tape id).sent := by
  have fans := (fansOut_opened distinct opened streams name tree).reaches reached
  have ⟨calls, t, took, stay, held, fan⟩ := fans
  refine ⟨⟨calls, t, took, fan.made, fan.fanned, fun out ended => ?_⟩, fun a on stuck => fan.waits on stuck,
    fun id c known shut s' later => ?_⟩
  · have work := fan.work
    rw [ended] at work
    cases work with
    | ended => exact ⟨_, rfl, rfl⟩
  · obtain ⟨-, -, -, same⟩ := fans.shut_reaches known shut later
    exact same

/-- The name of the second stream that is opened. -/
def Traffic.secondStream : String := Text.identifier "00000001" 1

/-- Two streams have been opened, and the reader of the second has been claimed. -/
def twoOpened : List Hand := [.start 1 0, .start 2 0, .claim Traffic.secondStream]

/-- A text is to be written to both streams in two parts. -/
def speaking : Beside Unit where
  floor := { (Exchange.fresh Policy.standard ()).floor with
    bus := { Bus.fresh Policy.standard with streams := (Traffic.after twoOpened).streams } }
  tape := (Traffic.after twoOpened).tape
  work := .on (.running (fanWork "speaker" (.chunks [(.string "he", false), (.string "llo", true)])
    [Traffic.firstStream, Traffic.secondStream]))
  taken := 0

/-- Both streams get the first part. The second part has to wait until the first stream is read, and when
it comes to the second stream, nobody reads that any more. -/
def spoken : Beside Unit :=
  [none, none, none, none, none, none, some (.claim Traffic.firstStream),
    some (.poll Traffic.firstStream), some (.dropReader Traffic.secondStream),
    none, none, none, none, none, none].foldl Beside.go speaking

theorem every_stream_gets_all_until_it_leaves_spoken : spoken.work = .ended (.ok ()) ∧
    (spoken.tape Traffic.firstStream).sent =
      [⟨Traffic.firstStream, 0, .string "he", false⟩, ⟨Traffic.firstStream, 1, .string "llo", true⟩] ∧
    (spoken.tape Traffic.secondStream).sent = [⟨Traffic.secondStream, 0, .string "he", false⟩] ∧
    ∃ calls, Fanned [Traffic.firstStream, Traffic.secondStream] spoken calls := by
  have distinct : [Traffic.firstStream, Traffic.secondStream].Nodup := by decide
  have opened : ∀ id ∈ [Traffic.firstStream, Traffic.secondStream], Traffic.Opened twoOpened id := by
    refine List.forall_mem_cons.mpr ⟨?_, List.forall_mem_singleton.mpr ?_⟩
    · exact ⟨[], 1, 0, _, _, rfl, rfl, by simp [Hand.writes]⟩
    · exact ⟨[.start 1 0], 2, 0, _, _, rfl, rfl, by simp [Hand.writes]⟩
  have reached : Beside.Reaches (Hand.writes [Traffic.firstStream, Traffic.secondStream]) (fun _ => ())
      speaking spoken := speaking.reaches_go (by simp [Hand.writes])
  obtain ⟨⟨calls, t, took, -, fanned, -⟩, -⟩ := every_stream_gets_all_until_it_leaves "speaker" _ twoOpened _
    distinct opened speaking.floor rfl spoken reached
  exact ⟨rfl, rfl, rfl, _, fanned⟩

end Pipeworks
