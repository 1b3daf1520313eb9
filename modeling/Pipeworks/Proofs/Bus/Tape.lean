import Pipeworks.Bus.Stream

/-!
# What becomes of one stream

Beside a stream a tape records what its writer and its reader see: the write under way, the
chunks that the stream took, the writes that returned, how often the reader was handed out, and
the results of its reads. `Channel.Tracks` relates the two, and every step that somebody can take
at a stream keeps it: a part of a write, a look for the next chunk, a claim, a clean-up. From it
follows what the reader has seen at any time.
-/

namespace Pipeworks

/-- What is recorded of one stream. -/
structure Tape where
  /-- The chunk of the write under way, and whether the stream has taken it. -/
  writing : Option (Chunk × Bool)
  /-- The chunks that the stream took, the earliest first. -/
  sent : List Chunk
  /-- The chunks whose writes have returned successfully, the earliest first. -/
  written : List Chunk
  /-- How often the reader was handed out. -/
  claims : Nat
  /-- The results of the reader's calls, the earliest first. -/
  results : List ReadResult

namespace Tape

def blank : Tape := ⟨none, [], [], 0, []⟩

/-- The chunk of a write that has still to return, if the stream has taken it. -/
def returning (t : Tape) : List Chunk :=
  match t.writing with
  | some (chunk, true) => [chunk]
  | _ => []

/-- How many numbers have been given to chunks that may still be sent. -/
def numbered (t : Tape) : Nat :=
  match t.writing with
  | some (_, false) => t.sent.length + 1
  | _ => t.sent.length

end Tape

/-- What the reader of a stream has seen when it has come to the end. -/
inductive SeenAll (id : String) (sent : List Chunk) : List ReadResult → Prop where
  /-- All chunks that were sent, the final one last, and then nothing more. -/
  | complete (before : List Chunk) (last : Chunk) (more : Nat) (whole : sent = before ++ [last])
      (plain : ∀ x ∈ before, x.isFinal = false) (final : last.isFinal = true) :
      SeenAll id sent (sent.map .chunk ++ List.replicate more .ended)
  /-- All chunks that were sent, none of which is final, then one truncation and nothing more. -/
  | cut (more : Nat) (plain : ∀ x ∈ sent, x.isFinal = false) :
      SeenAll id sent (sent.map .chunk ++ .truncated id :: List.replicate more .ended)

/-- What the reader of a stream has seen. -/
inductive Seen (id : String) (sent : List Chunk) : List ReadResult → Prop where
  /-- The first of the chunks that were sent, and no final one yet. -/
  | going (read rest : List Chunk) (part : sent = read ++ rest)
      (plain : ∀ x ∈ read, x.isFinal = false) : Seen id sent (read.map .chunk)
  | ended {results : List ReadResult} (all : SeenAll id sent results) : Seen id sent results

theorem SeenAll.again {id : String} {sent : List Chunk} {results : List ReadResult}
    (seen : SeenAll id sent results) : SeenAll id sent (results ++ [.ended]) := by
  have one (n : Nat) : List.replicate n ReadResult.ended ++ [.ended] = List.replicate (n + 1) .ended :=
    List.replicate_succ'.symm
  cases seen with
  | complete before last more whole plain final =>
    rw [List.append_assoc, one]
    exact .complete before last (more + 1) whole plain final
  | cut more plain =>
    rw [List.append_assoc, List.cons_append, one]
    exact .cut (more + 1) plain

/-- What somebody can do at a stream, with what is recorded of it. -/
inductive Channel.Steps (id : String) (c : Channel) (t : Tape) : Channel → Tape → Prop where
  | still : Steps id c t c t
  | began {data : Json} {isFinal : Bool} {chunk : Chunk} {c' : Channel} (free : t.writing = none)
      (held : c.hasWriter = true) (ok : c.number id data isFinal = .ok (chunk, c')) :
      Steps id c t c' { t with writing := some (chunk, false) }
  | pushed {chunk : Chunk} {c' : Channel} (writing : t.writing = some (chunk, false))
      (took : c.push chunk = (.sent, c')) :
      Steps id c t c' { t with writing := some (chunk, true), sent := t.sent ++ [chunk] }
  | refused {chunk : Chunk} (writing : t.writing = some (chunk, false)) (shut : c.isOpen = false) :
      Steps id c t c { t with writing := none }
  | returned {chunk : Chunk} (writing : t.writing = some (chunk, true)) :
      Steps id c t (c.conclude chunk) { t with writing := none, written := t.written ++ [chunk] }
  | writerLeft (free : t.writing = none) : Steps id c t c.dropWriter t
  | claimed (parked : c.reader = .parked) :
      Steps id c t { c with reader := .claimed } { t with claims := t.claims + 1 }
  | polled {r : ReadResult} {c' : Channel} (found : c.poll id = (r, c')) (some : r ≠ .pending) :
      Steps id c t c' { t with results := t.results ++ [r] }
  | noticed : Steps id c t c.notice t
  | readerLeft : Steps id c t c.dropReader t
  | cleaned (now ttl : Nat) : Steps id c t (c.clean now ttl) t
  | truncated : Steps id c t c.truncate t

/-- How a stream and its tape belong together. -/
structure Channel.Tracks (id : String) (c : Channel) (t : Tape) : Prop where
  claims : t.claims ≤ 1
  parked : c.reader = .parked → t.claims = 0
  /-- A chunk has the name of its stream. -/
  named : ∀ x taken, t.writing = some (x, taken) → x.stream = id
  whole : t.sent = t.written ++ t.returning
  /-- Chunks are numbered in the order in which they are sent. -/
  seqs : t.sent.map (·.seq) = List.range t.sent.length
  next : c.isOpen = true →
    c.nextSeq = t.numbered ∧ ∀ x, t.writing = some (x, false) → x.seq = t.sent.length
  /-- Whoever writes holds the writer, and has not finished. -/
  going : t.writing ≠ none → c.hasWriter = true ∧ c.finished = false
  plain : c.finished = false → ∀ x ∈ t.written, x.isFinal = false
  /-- Only the last chunk is final. -/
  last : ∀ x ∈ t.sent.dropLast, x.isFinal = false
  /-- As long as the reader has not come to the end, what it has not read is in the buffer. -/
  reading : c.ended = false → ∃ read, t.sent = read ++ c.buffer ∧ t.results = read.map .chunk ∧
    ∀ x ∈ read, x.isFinal = false
  /-- At the end everything has been read, and nothing more can be sent. -/
  ended : c.ended = true → c.buffer = [] ∧ SeenAll id t.sent t.results ∧
    (c.closing = true ∨ c.hasWriter = false ∨ ∃ x ∈ t.sent, x.isFinal = true)

namespace Channel.Tracks

variable {id : String} {c : Channel} {t : Tape}

theorem fresh (capacity now : Nat) : Tracks id (Channel.fresh capacity now) .blank where
  claims := Nat.zero_le _
  parked _ := rfl
  named := nofun
  whole := rfl
  seqs := rfl
  next _ := ⟨rfl, nofun⟩
  going h := absurd rfl h
  plain _ := nofun
  last := nofun
  reading _ := ⟨[], rfl, rfl, nofun⟩
  ended := nofun

/-- A change that only takes from what the stream allows. -/
theorem less {c' : Channel} (tracks : Tracks id c t) (buffer : c'.buffer = c.buffer)
    (nextSeq : c'.nextSeq = c.nextSeq) (finished : c'.finished = c.finished)
    (hasWriter : c'.hasWriter = c.hasWriter) (ended : c'.ended = c.ended)
    (closing : c.closing = true → c'.closing = true) (isOpen : c'.isOpen = true → c.isOpen = true)
    (parked : c'.reader = .parked → c.reader = .parked) : Tracks id c' t where
  claims := tracks.claims
  parked here := tracks.parked (parked here)
  named := tracks.named
  whole := tracks.whole
  seqs := tracks.seqs
  next here := by
    rw [nextSeq]
    exact tracks.next (isOpen here)
  going := by
    rw [hasWriter, finished]
    exact tracks.going
  plain := by
    rw [finished]
    exact tracks.plain
  last := tracks.last
  reading := by
    rw [ended, buffer]
    exact tracks.reading
  ended := by
    rw [ended, buffer, hasWriter]
    intro past
    obtain ⟨empty, seen, shut⟩ := tracks.ended past
    exact ⟨empty, seen, shut.imp_left closing⟩

theorem number {data : Json} {isFinal : Bool} {chunk : Chunk} {c' : Channel}
    (tracks : Tracks id c t) (free : t.writing = none) (held : c.hasWriter = true)
    (ok : c.number id data isFinal = .ok (chunk, c')) :
    Tracks id c' { t with writing := some (chunk, false) } := by
  rw [Channel.number] at ok
  by_cases finished : c.finished = true
  · simp [finished] at ok
  · rw [if_neg finished] at ok
    obtain ⟨rfl, rfl⟩ := Prod.mk.inj (Except.ok.inj ok)
    refine { tracks with named := ?_, whole := ?_, next := ?_, going := ?_ }
    · rintro x taken is
      obtain rfl := (Prod.mk.inj (Option.some.inj is)).1
      rfl
    · have whole := tracks.whole
      rw [Tape.returning, free] at whole
      exact whole
    · intro here
      have next := (tracks.next here).1
      rw [Tape.numbered, free] at next
      refine ⟨congrArg (· + 1) next, ?_⟩
      rintro x is
      obtain rfl := (Prod.mk.inj (Option.some.inj is)).1
      exact next
    · exact fun _ => ⟨held, by simpa using finished⟩

/-- While a write is under way, no final chunk has been sent, unless it is that of the write. -/
theorem plain_sent (tracks : Tracks id c t) (going : c.finished = false)
    (waiting : t.returning = []) : ∀ x ∈ t.sent, x.isFinal = false := by
  rw [tracks.whole, waiting, List.append_nil]
  exact tracks.plain going

theorem push {chunk : Chunk} {c' : Channel} (tracks : Tracks id c t)
    (writing : t.writing = some (chunk, false)) (took : c.push chunk = (.sent, c')) :
    Tracks id c' { t with writing := some (chunk, true), sent := t.sent ++ [chunk] } := by
  rw [Channel.push] at took
  by_cases here : c.isOpen = true
  · rw [here, Bool.not_true, if_neg Bool.false_ne_true] at took
    by_cases room : c.buffer.length < c.capacity
    · rw [if_pos room] at took
      obtain ⟨-, rfl⟩ := Prod.mk.inj took
      obtain ⟨held, unfinished⟩ := tracks.going (by simp [writing])
      obtain ⟨next, number⟩ := tracks.next here
      have waiting : t.returning = [] := by rw [Tape.returning, writing]
      have plain := tracks.plain_sent unfinished waiting
      have length : (t.sent ++ [chunk]).length = t.sent.length + 1 := List.length_append
      refine ⟨tracks.claims, tracks.parked, ?_, ?_, ?_, ?_, fun _ => ⟨held, unfinished⟩,
        tracks.plain, ?_, ?_, ?_⟩
      · rintro x taken is
        obtain rfl := (Prod.mk.inj (Option.some.inj is)).1
        exact tracks.named chunk false writing
      · have whole := tracks.whole
        rw [waiting, List.append_nil] at whole
        exact congrArg (· ++ [chunk]) whole
      · rw [List.map_append, tracks.seqs, length, List.range_succ]
        exact congrArg (fun n => List.range t.sent.length ++ [n]) (number chunk writing)
      · intro _
        rw [Tape.numbered, writing] at next
        exact ⟨next.trans length.symm, nofun⟩
      · rw [List.dropLast_concat]
        exact plain
      · intro going
        obtain ⟨read, split, results, none⟩ := tracks.reading going
        refine ⟨read, ?_, results, none⟩
        rw [split, List.append_assoc]
      · intro past
        -- the end is reached only when nothing more can be sent
        obtain ⟨-, -, shut | gone | ⟨x, hx, final⟩⟩ := tracks.ended past
        · simp [Channel.isOpen, shut] at here
        · simp [held] at gone
        · simp [plain x hx] at final
    · simp [room] at took
  · simp [here] at took

theorem conclude {chunk : Chunk} (tracks : Tracks id c t) (writing : t.writing = some (chunk, true)) :
    Tracks id (c.conclude chunk) { t with writing := none, written := t.written ++ [chunk] } := by
  have returning : t.returning = [chunk] := by rw [Tape.returning, writing]
  have whole : t.sent = t.written ++ [chunk] := by rw [tracks.whole, returning]
  refine { tracks with named := nofun, whole := ?_, next := ?_, going := ?_, plain := ?_ }
  · exact whole.trans (List.append_nil _).symm
  · intro here
    have next := (tracks.next here).1
    rw [Tape.numbered, writing] at next
    exact ⟨next, nofun⟩
  · exact fun none => absurd rfl none
  · intro unfinished
    rw [Channel.conclude, Bool.or_eq_false_iff] at unfinished
    exact List.forall_mem_append.mpr ⟨tracks.plain unfinished.1,
      List.forall_mem_singleton.mpr unfinished.2⟩

/-- What the reader gets from the buffer is final only if it is the last chunk of all. -/
theorem poll_chunk {chunk : Chunk} {rest : List Chunk} (tracks : Tracks id c t)
    (going : c.ended = false) (buffer : c.buffer = chunk :: rest) :
    Tracks id { c with buffer := rest, ended := chunk.isFinal }
      { t with results := t.results ++ [.chunk chunk] } := by
  obtain ⟨read, split, results, plain⟩ := tracks.reading going
  rw [buffer] at split
  have seen : t.results ++ [.chunk chunk] = (read ++ [chunk]).map .chunk := by
    rw [results, List.map_append]
    rfl
  refine { tracks with reading := ?_, ended := ?_ }
  · intro more
    refine ⟨read ++ [chunk], by rw [split, List.append_assoc]; rfl, seen, ?_⟩
    exact List.forall_mem_append.mpr ⟨plain, List.forall_mem_singleton.mpr more⟩
  · intro final
    have nothing : rest = [] := by
      cases rest with
      | nil => rfl
      | cons x xs =>
        have inside : chunk ∈ t.sent.dropLast := by
          rw [split, List.dropLast_append_of_ne_nil (List.cons_ne_nil _ _), List.dropLast_cons_cons]
          exact List.mem_append_right _ (List.mem_cons_self ..)
        exact absurd (final.symm.trans (tracks.last chunk inside)) (by simp)
    subst nothing
    have complete : SeenAll id _ _ := .complete read chunk 0 split plain final
    rw [List.replicate_zero, List.append_nil, split, ← seen, ← split] at complete
    exact ⟨rfl, complete, .inr (.inr ⟨chunk, split ▸ by simp, final⟩)⟩

theorem poll {r : ReadResult} {c' : Channel} (tracks : Tracks id c t) (found : c.poll id = (r, c'))
    (some : r ≠ .pending) : Tracks id c' { t with results := t.results ++ [r] } := by
  rw [Channel.poll] at found
  cases going : c.ended with
  | true =>
    rw [going, if_pos rfl] at found
    obtain ⟨rfl, rfl⟩ := Prod.mk.inj found
    obtain ⟨empty, seen, shut⟩ := tracks.ended going
    refine { tracks with reading := fun more => ?_, ended := fun _ => ⟨empty, seen.again, shut⟩ }
    simp [going] at more
  | false =>
    rw [going, if_neg Bool.false_ne_true] at found
    cases buffer : c.buffer with
    | cons chunk rest =>
      simp only [buffer] at found
      obtain ⟨rfl, rfl⟩ := Prod.mk.inj found
      exact tracks.poll_chunk going buffer
    | nil =>
      simp only [buffer] at found
      split at found
      · rename_i shut
        obtain ⟨rfl, rfl⟩ := Prod.mk.inj found
        obtain ⟨read, split, results, plain⟩ := tracks.reading going
        obtain rfl : t.sent = read := by rw [split, buffer, List.append_nil]
        refine { tracks with reading := nofun, ended := fun _ => ⟨rfl, ?_, ?_⟩ }
        · rw [results]
          exact .cut 0 plain
        · rw [Bool.or_eq_true, Bool.not_eq_true'] at shut
          exact shut.imp_right .inl
      · obtain ⟨rfl, rfl⟩ := Prod.mk.inj found
        exact absurd rfl some

theorem refused {chunk : Chunk} (tracks : Tracks id c t) (writing : t.writing = some (chunk, false))
    (shut : c.isOpen = false) : Tracks id c { t with writing := none } := by
  have whole := tracks.whole
  rw [Tape.returning, writing] at whole
  exact { tracks with
    named := nofun
    whole := whole
    next := fun here => absurd (shut.symm.trans here) Bool.false_ne_true
    going := fun some => absurd rfl some }

theorem dropWriter (tracks : Tracks id c t) (free : t.writing = none) :
    Tracks id c.dropWriter t := by
  refine { tracks with going := fun some => absurd free some, ended := fun past => ?_ }
  obtain ⟨empty, seen, -⟩ := tracks.ended past
  exact ⟨empty, seen, .inr (.inl rfl)⟩

theorem claim (tracks : Tracks id c t) (parked : c.reader = .parked) :
    Tracks id { c with reader := .claimed } { t with claims := t.claims + 1 } := by
  have none := tracks.parked parked
  refine { tracks with claims := ?_, parked := nofun, next := ?_ }
  · exact Nat.le_of_eq (congrArg (· + 1) none)
  · refine fun here => tracks.next ?_
    simpa [isOpen, parked] using here

theorem forget (c : Channel) :
    (c.forget.isOpen = true → c.isOpen = true) ∧ (c.forget.reader = .parked → c.reader = .parked) := by
  simp only [Channel.forget, isOpen]
  cases c.reader <;> simp

theorem step {c' : Channel} {t' : Tape} (tracks : Tracks id c t) (steps : Steps id c t c' t') :
    Tracks id c' t' := by
  cases steps with
  | still => exact tracks
  | began free held ok => exact tracks.number free held ok
  | pushed writing took => exact tracks.push writing took
  | refused writing shut => exact tracks.refused writing shut
  | returned writing => exact tracks.conclude writing
  | writerLeft free => exact tracks.dropWriter free
  | claimed parked => exact tracks.claim parked
  | polled found some => exact tracks.poll found some
  | noticed =>
    have closing (shut : c.closing = true) : c.notice.closing = true := by simp [Channel.notice, shut]
    refine tracks.less rfl rfl rfl rfl rfl closing ?_ fun parked => parked
    simp only [isOpen, Channel.notice]
    cases c.closing <;> simp +contextual
  | readerLeft =>
    have gone : c.dropReader.isOpen = false := by simp [isOpen, Channel.dropReader]
    exact tracks.less rfl rfl rfl rfl rfl (fun shut => shut)
      (fun here => absurd (gone.symm.trans here) Bool.false_ne_true) nofun
  | cleaned now ttl =>
    rw [Channel.clean]
    split
    · exact tracks.less rfl rfl rfl rfl rfl (fun shut => shut) (forget c).1 (forget c).2
    · exact tracks
  | truncated =>
    rw [Channel.truncate]
    split
    · exact tracks.less rfl rfl rfl rfl rfl (fun shut => shut) (forget c).1 (forget c).2
    · exact tracks

/-- What the reader has seen at any time. -/
theorem seen (tracks : Tracks id c t) : Seen id t.sent t.results := by
  cases past : c.ended with
  | true => exact .ended (tracks.ended past).2.1
  | false =>
    obtain ⟨read, split, results, plain⟩ := tracks.reading past
    rw [results]
    exact .going read c.buffer split plain

end Channel.Tracks

/-! ## Waiting -/

namespace Channel

variable {id : String} {c c' : Channel} {t t' : Tape}

/-- Whether the reader has no reason to wait for more chunks than those in the buffer. -/
def IsOver (c : Channel) : Prop := c.closing = true ∨ c.hasWriter = false

theorem IsOver.poll (past : c.IsOver) (id : String) : (c.poll id).1 ≠ .pending := by
  rw [Channel.poll]
  split
  · simp
  · split
    · simp
    · rw [if_pos (by simpa [IsOver] using past)]
      simp

/-- A reader that has to wait leaves the stream as it is. -/
theorem eq_of_poll (found : c.poll id = (.pending, c')) : c' = c := by
  rw [Channel.poll] at found
  split at found
  · simp at found
  · split at found
    · simp at found
    · split at found
      · simp at found
      · exact (Prod.mk.inj found).2.symm

theorem isOver_notice (cancelled : c.cancelled = true) : c.notice.IsOver :=
  .inl (by simp [notice, cancelled])

/-- What is over stays over. -/
theorem Steps.isOver (steps : Steps id c t c' t') (past : c.IsOver) : c'.IsOver := by
  cases steps with
  | began free held ok =>
    rw [number] at ok
    split at ok
    · simp at ok
    · obtain ⟨-, rfl⟩ := Prod.mk.inj (Except.ok.inj ok)
      exact past
  | pushed writing took =>
    rw [push] at took
    split at took
    · simp at took
    · split at took
      · obtain ⟨-, rfl⟩ := Prod.mk.inj took
        exact past
      · simp at took
  | polled found =>
    rw [Channel.poll] at found
    split at found
    · obtain ⟨-, rfl⟩ := Prod.mk.inj found
      exact past
    · split at found
      · obtain ⟨-, rfl⟩ := Prod.mk.inj found
        exact past
      · split at found <;>
        · obtain ⟨-, rfl⟩ := Prod.mk.inj found
          exact past
  | writerLeft => exact .inr rfl
  | noticed => exact past.imp_left fun shut => by simp [notice, shut]
  | cleaned now ttl =>
    rw [clean]
    split <;> exact past
  | truncated =>
    rw [truncate]
    split <;> exact past
  | still | refused | returned | claimed | readerLeft => exact past

end Channel

end Pipeworks
