import Mathlib.Data.List.Induction
import Pipeworks.Proofs.Bus.Traffic

/-!
# What a hand does to one stream

Whatever is done to the streams, what becomes of one of them and of its tape depends on nothing but the
two of them. `Hand.touch` says what it is. So a reader that is claimed stays with whoever claimed it, and
nothing is seen of a stream but by its own reader.
-/

namespace Pipeworks

namespace Hand

/-- What this does to a stream that it concerns. -/
def does (id : String) (c : Channel) (t : Tape) : Hand → Channel × Tape
  | start _ _ => (c, t)
  | write _ data isFinal =>
    if c.hasWriter && t.writing.isNone then
      match c.number id data isFinal with
      | .ok (chunk, c) => (c, { t with writing := some (chunk, false) })
      | .error _ => (c, t)
    else (c, t)
  | push _ =>
    match t.writing with
    | some (chunk, false) =>
      match c.push chunk with
      | (.sent, c) => (c, { t with writing := some (chunk, true), sent := t.sent ++ [chunk] })
      | (.full, _) => (c, t)
      | (.refused _, c) => (c, { t with writing := none })
    | _ => (c, t)
  | finish _ =>
    match t.writing with
    | some (chunk, true) =>
      (c.conclude chunk, { t with writing := none, written := t.written ++ [chunk] })
    | _ => (c, t)
  | dropWriter _ => if c.hasWriter && t.writing.isNone then (c.dropWriter, t) else (c, t)
  | claim _ =>
    if c.listed && c.reader == .parked then
      ({ c with reader := .claimed }, { t with claims := t.claims + 1 })
    else (c, t)
  | poll _ =>
    if c.reader == .claimed then
      match c.poll id with
      | (.pending, _) => (c, t)
      | (r, c) => (c, { t with results := t.results ++ [r] })
    else (c, t)
  | notice _ => if c.reader == .claimed then (c.notice, t) else (c, t)
  | dropReader _ => if c.reader == .claimed then (c.dropReader, t) else (c, t)
  | cleanup now ttl => (c.clean now ttl, t)
  | truncateAll => (c.truncate, t)

/-- The stream that something is done to, unless it concerns all. -/
def stream? : Hand → Option String
  | write id _ _ | push id | finish id | dropWriter id | claim id | poll id | notice id
  | dropReader id => some id
  | start _ _ | cleanup _ _ | truncateAll => none

/-- What is done to the stream of one name. -/
def touch (h : Hand) (id : String) (c : Channel) (t : Tape) : Channel × Tape :=
  if h.stream?.all (· == id) then h.does id c t else (c, t)

end Hand

/-! ## What changes -/

namespace Channel

/-- A chunk gets the next number, unless the stream is finished. -/
theorem number_ok {id : String} {c c' : Channel} {data : Json} {isFinal : Bool} {chunk : Chunk}
    (ok : c.number id data isFinal = .ok (chunk, c')) :
    c.finished = false ∧ chunk = ⟨id, c.nextSeq, data, isFinal⟩ ∧
      c' = { c with nextSeq := c.nextSeq + 1 } := by
  rw [number] at ok
  split at ok
  · simp at ok
  · rename_i going
    obtain ⟨rfl, rfl⟩ := Prod.mk.inj (Except.ok.inj ok)
    exact ⟨by simpa using going, rfl, rfl⟩

theorem push_changes (c : Channel) (chunk : Chunk) : ∃ buffer, (c.push chunk).2 = { c with buffer } := by
  rw [push]
  split
  · exact ⟨_, rfl⟩
  · split <;> exact ⟨_, rfl⟩

theorem poll_changes (c : Channel) (id : String) :
    ∃ buffer ended, (c.poll id).2 = { c with buffer, ended } := by
  rw [poll]
  split
  · exact ⟨_, _, rfl⟩
  · split
    · exact ⟨_, _, rfl⟩
    · split <;> exact ⟨_, _, rfl⟩

end Channel

namespace Hand

variable (k id : String) (c : Channel) (t : Tape)

theorem does_write (data : Json) (isFinal : Bool) :
    ∃ nextSeq, ((write k data isFinal).does id c t).1 = { c with nextSeq } := by
  rw [does]
  split
  · split
    · rename_i ok
      exact ⟨_, (Channel.number_ok ok).2.2⟩
    · exact ⟨_, rfl⟩
  · exact ⟨_, rfl⟩

theorem does_push : ∃ buffer, ((push k).does id c t).1 = { c with buffer } := by
  rw [does]
  split
  · rename_i chunk writing
    have changes := c.push_changes chunk
    generalize c.push chunk = r at changes ⊢
    obtain ⟨w, c'⟩ := r
    cases w with
    | full => exact ⟨_, rfl⟩
    | sent | refused => exact changes
  · exact ⟨_, rfl⟩

theorem does_poll : ∃ buffer ended results,
    (poll k).does id c t = ({ c with buffer, ended }, { t with results }) := by
  rw [does]
  split
  · obtain ⟨buffer, ended, changes⟩ := c.poll_changes id
    generalize c.poll id = r at changes ⊢
    obtain ⟨result, c'⟩ := r
    obtain rfl : c' = { c with buffer, ended } := changes
    cases result with
    | pending => exact ⟨_, _, _, rfl⟩
    | chunk | truncated | ended => exact ⟨_, _, _, rfl⟩
  · exact ⟨_, _, _, rfl⟩

end Hand

/-! ## Readers -/

namespace Channel

variable {c : Channel}

theorem reader_clean (c : Channel) (now ttl : Nat) : (c.clean now ttl).reader = c.reader ∨
    c.reader = .parked ∧ (c.clean now ttl).reader = .gone := by
  rw [clean]
  split
  · by_cases parked : c.reader = .parked
    · exact .inr ⟨parked, if_pos parked⟩
    · exact .inl (if_neg parked)
  · exact .inl rfl

theorem reader_truncate (c : Channel) : c.truncate.reader = c.reader ∨
    c.reader = .parked ∧ c.truncate.reader = .gone := by
  rw [truncate]
  split
  · by_cases parked : c.reader = .parked
    · exact .inr ⟨parked, if_pos parked⟩
    · exact .inl (if_neg parked)
  · exact .inl rfl

end Channel

namespace Hand

variable {id : String} {c : Channel} {t : Tape} {h : Hand}

theorem touch_cases (h : Hand) (id : String) (c : Channel) (t : Tape) :
    (h.stream? = some id ∨ h.stream? = none) ∧ h.touch id c t = h.does id c t ∨
      h.touch id c t = (c, t) := by
  rw [touch]
  cases names : h.stream? with
  | none => exact .inl ⟨.inr rfl, rfl⟩
  | some k =>
    rw [Option.all_some]
    split
    · rename_i own
      exact .inl ⟨.inl (congrArg some (beq_iff_eq.mp own)), rfl⟩
    · exact .inr rfl

/-- Nobody sees anything of a stream but who looks for a chunk. -/
theorem results_touch (h : Hand) (id : String) (c : Channel) (t : Tape) :
    (h.touch id c t).2.results = t.results ∨ h = .poll id ∧ c.reader = .claimed := by
  rcases touch_cases h id c t with ⟨names, same⟩ | same
  · rw [same]
    cases h with
    | poll k =>
      obtain rfl : k = id := by simpa [stream?] using names
      rw [does]
      split
      · rename_i claimed
        exact .inr ⟨rfl, beq_iff_eq.mp claimed⟩
      · exact .inl rfl
    | write k data isFinal =>
      rw [does]
      split
      · split <;> exact .inl rfl
      · exact .inl rfl
    | push k =>
      rw [does]
      split
      · split <;> exact .inl rfl
      · exact .inl rfl
    | finish | dropWriter | claim | notice | dropReader =>
      rw [does]
      split <;> exact .inl rfl
    | start | cleanup | truncateAll => exact .inl rfl
  · exact .inl (congrArg (fun r : Channel × Tape => r.2.results) same)

/-- Where the reader of a stream goes. -/
theorem reader_touch (h : Hand) (id : String) (c : Channel) (t : Tape) :
    (h.touch id c t).1.reader = c.reader ∨
      c.reader = .parked ∧ (h.touch id c t).1.reader ≠ .parked ∨
      h = .dropReader id ∧ (h.touch id c t).1.reader = .gone := by
  rcases touch_cases h id c t with ⟨names, same⟩ | same
  · rw [same]
    cases h with
    | start => exact .inl rfl
    | write k data isFinal =>
      obtain ⟨_, same⟩ := does_write k id c t data isFinal
      exact .inl (by rw [same])
    | push k =>
      obtain ⟨_, same⟩ := does_push k id c t
      exact .inl (by rw [same])
    | poll k =>
      obtain ⟨_, _, _, same⟩ := does_poll k id c t
      exact .inl (by rw [same])
    | claim k =>
      rw [does]
      split
      · rename_i free
        rw [Bool.and_eq_true, beq_iff_eq] at free
        exact .inr (.inl ⟨free.2, by simp⟩)
      · exact .inl rfl
    | dropReader k =>
      obtain rfl : k = id := by simpa [stream?] using names
      rw [does]
      split
      · exact .inr (.inr ⟨rfl, rfl⟩)
      · exact .inl rfl
    | finish | dropWriter | notice =>
      rw [does]
      split <;> exact .inl rfl
    | cleanup now ttl =>
      exact (c.reader_clean now ttl).imp_right fun gone =>
        .inl ⟨gone.1, fun parked => nomatch gone.2.symm.trans parked⟩
    | truncateAll =>
      exact c.reader_truncate.imp_right fun gone =>
        .inl ⟨gone.1, fun parked => nomatch gone.2.symm.trans parked⟩
  · exact .inl (congrArg (fun r : Channel × Tape => r.1.reader) same)

/-- Whether this is up to the reader of a stream. -/
def reads (id : String) : Hand → Bool
  | poll k | notice k | dropReader k => k == id
  | _ => false

/-- What is not up to the reader of a stream shows nothing of it. -/
theorem results_of_other (other : h.reads id = false) : (h.touch id c t).2.results = t.results := by
  refine (results_touch h id c t).resolve_right ?_
  rintro ⟨rfl, -⟩
  simp [reads] at other

/-- Who has claimed the reader of a stream keeps it. -/
theorem claimed_touch (claimed : c.reader = .claimed) (stays : h ≠ .dropReader id) :
    (h.touch id c t).1.reader = .claimed := by
  rcases reader_touch h id c t with same | ⟨parked, -⟩ | ⟨drops, -⟩
  · exact same.trans claimed
  · simp [claimed] at parked
  · exact absurd drops stays

/-- A reader that is parked has always been, and has seen nothing. -/
theorem parked_before (parked : (h.touch id c t).1.reader = .parked) :
    c.reader = .parked ∧ (h.touch id c t).2.results = t.results := by
  have before : c.reader = .parked := by
    rcases reader_touch h id c t with same | ⟨-, moved⟩ | ⟨-, gone⟩
    · exact same.symm.trans parked
    · exact absurd parked moved
    · simp [gone] at parked
  refine ⟨before, (results_touch h id c t).resolve_right ?_⟩
  rintro ⟨-, claimed⟩
  simp [before] at claimed

end Hand

namespace Streams

variable {s : Streams} {id : String} {c : Channel}

/-- A change of a stream that is there sets it. -/
theorem change_of_get? (known : s.get? id = some c) (f : Channel → Channel) :
    s.change id f = s.set id (f c) := by
  rw [set, change, change]
  congr 1
  rw [get?] at known
  generalize s.channels = channels at known
  induction channels with
  | nil => rfl
  | cons m rest ih =>
    obtain ⟨k, c₀⟩ := m
    rw [changeIn, changeIn]
    split
    · rename_i here
      rw [here, List.lookup_cons_self] at known
      rw [Option.some.inj known]
    · rename_i other
      rw [List.lookup_cons, beq_eq_false_iff_ne.mpr (Ne.symm other)] at known
      rw [ih known]

theorem change_id (s : Streams) (id : String) : (s.change id fun c => c) = s := by
  rw [change]
  congr 1
  induction s.channels with
  | nil => rfl
  | cons m rest ih =>
    obtain ⟨k, c⟩ := m
    rw [changeIn]
    split
    · rfl
    · rw [ih]

/-- A stream that is set to what it is stays the same. -/
theorem set_self (known : s.get? id = some c) : s.set id c = s := by
  rw [← change_of_get? known fun c => c, change_id]

/-- A claim that fails changes nothing. -/
theorem eq_of_claim {streams : Streams} {e : Fault} (failed : s.claim id = (.error e, streams)) :
    streams = s := by
  rw [claim] at failed
  split at failed
  · exact (Prod.mk.inj failed).2.symm
  · split at failed
    · exact (Prod.mk.inj failed).2.symm
    · split at failed
      · simp at failed
      · exact (Prod.mk.inj failed).2.symm

end Streams

namespace Traffic

variable {s : Traffic} {id : String} {c : Channel}

/-- Without a stream of its name, nothing is done. -/
theorem act_unknown (sound : s.Sound) {h : Hand} (names : h.stream? = some id)
    (unknown : s.streams.get? id = none) : s.act h = s := by
  have blank := sound.unknown id unknown
  cases h with
  | start | cleanup | truncateAll => simp [Hand.stream?] at names
  | _ =>
    obtain rfl := Option.some.inj names
    simp [act, write, push, finish, dropWriter, claim, poll, isFree, isRead, Streams.claim, unknown,
      blank, Tape.blank]

/-- What is done to a stream sets it, and its tape. -/
theorem act_named (sound : s.Sound) {h : Hand} (names : h.stream? = some id)
    (known : s.streams.get? id = some c) :
    s.act h = s.record id (s.streams.set id (h.does id c (s.tape id)).1)
      (h.does id c (s.tape id)).2 := by
  have still : s = s.record id (s.streams.set id c) (s.tape id) := by
    rw [record, Streams.set_self known, Function.update_eq_self]
  cases h with
  | start | cleanup | truncateAll => simp [Hand.stream?] at names
  | write k data isFinal =>
    obtain rfl := Option.some.inj names
    simp only [act, write, isFree, known, Hand.does]
    split
    · rw [Streams.number_of_get? known]
      cases c.number k data isFinal with
      | error e => exact still
      | ok r => rfl
    · exact still
  | push k =>
    obtain rfl := Option.some.inj names
    rcases writing : (s.tape k).writing with _ | ⟨chunk, _ | _⟩
    · simp only [act, push, Hand.does, writing]
      exact still
    · obtain ⟨rfl, -⟩ := sound.known_of_writing writing
      simp only [act, push, Hand.does, writing, Streams.push_of_get? known]
      rcases c.push chunk with ⟨w, c'⟩
      cases w with
      | full => exact still
      | sent | refused => rfl
    · simp only [act, push, Hand.does, writing]
      exact still
  | finish k =>
    obtain rfl := Option.some.inj names
    rcases writing : (s.tape k).writing with _ | ⟨chunk, _ | _⟩
    · simp only [act, finish, Hand.does, writing]
      exact still
    · simp only [act, finish, Hand.does, writing]
      exact still
    · obtain ⟨rfl, -⟩ := sound.known_of_writing writing
      simp only [act, finish, Hand.does, writing, Streams.conclude, Streams.change_of_get? known]
  | claim k =>
    obtain rfl := Option.some.inj names
    simp only [act, claim, Hand.does, Streams.claim, known]
    cases c.listed with
    | false => exact still
    | true =>
      by_cases parked : c.reader = .parked
      · simp only [parked]
        rfl
      · simp only [Bool.not_true, if_neg Bool.false_ne_true, if_neg parked,
          beq_eq_false_iff_ne.mpr parked, Bool.and_false]
        exact still
  | poll k =>
    obtain rfl := Option.some.inj names
    simp only [act, poll, isRead, known, Hand.does]
    split
    · rw [Streams.poll_of_get? known]
      rcases c.poll k with ⟨r, c'⟩
      cases r with
      | pending => exact still
      | chunk | truncated | ended => rfl
    · exact still
  | dropWriter k | notice k | dropReader k =>
    obtain rfl := Option.some.inj names
    simp only [act, dropWriter, isFree, isRead, known, Hand.does]
    split
    · rw [record, Function.update_eq_self]
      exact congrArg (fun streams => (⟨streams, s.tape⟩ : Traffic)) (Streams.change_of_get? known _)
    · exact still

theorem tape_record {streams : Streams} {t : Tape} : (s.record id streams t).tape id = t :=
  Function.update_self ..

theorem Sound.foldl (sound : s.Sound) (hands : List Hand) : (hands.foldl act s).Sound := by
  induction hands generalizing s with
  | nil => exact sound
  | cons h hands ih => exact ih (sound.step (sound.goes h))

/-- A stream of this name is there, with this tape. -/
structure Shows (s : Traffic) (id : String) (c : Channel) (t : Tape) : Prop where
  channel : s.streams.get? id = some c
  tape : s.tape id = t

variable {t : Tape}

theorem shows_of_get? (known : s.streams.get? id = some c) : s.Shows id c (s.tape id) :=
  ⟨known, rfl⟩

theorem Shows.record_self {c' : Channel} {t' : Tape} (shows : s.Shows id c t) :
    (s.record id (s.streams.set id c') t').Shows id c' t' := by
  refine ⟨?_, Function.update_self ..⟩
  rw [record, Streams.set, Streams.get?_change, if_pos rfl, shows.channel]
  rfl

/-- Others see nothing of what is recorded of a stream. -/
theorem Shows.record_other {k : String} {c' : Channel} {t' : Tape} (shows : s.Shows id c t)
    (other : id ≠ k) : (s.record k (s.streams.set k c') t').Shows id c t := by
  refine ⟨?_, (Function.update_of_ne other ..).trans shows.tape⟩
  rw [record, Streams.set, Streams.get?_change, if_neg other, shows.channel]

/-- What is done to the streams shows at each of them. -/
theorem Shows.act (shows : s.Shows id c t) (sound : s.Sound) (h : Hand) :
    (s.act h).Shows id (h.touch id c t).1 (h.touch id c t).2 := by
  cases names : h.stream? with
  | some k =>
    rw [Hand.touch, names, Option.all_some]
    by_cases own : k = id
    · subst own
      rw [if_pos (beq_self_eq_true k), act_named sound names shows.channel, shows.tape]
      exact shows.record_self
    · rw [if_neg (by simpa using own)]
      cases known : s.streams.get? k with
      | none =>
        rw [act_unknown sound names known]
        exact shows
      | some c' =>
        rw [act_named sound names known]
        exact shows.record_other (Ne.symm own)
  | none =>
    rw [Hand.touch, names]
    cases h with
    | start capacity now =>
      simp only [Traffic.act]
      cases ok : s.streams.start capacity now with
      | ok r =>
        obtain ⟨-, new, -, others⟩ := sound.numbered.start ok
        refine ⟨(others id ?_).trans shows.channel, shows.tape⟩
        rintro rfl
        exact absurd (new.symm.trans shows.channel) (by simp)
      | failed | panicked => exact shows
    | cleanup now ttl =>
      refine ⟨(s.streams.get?_map (·.clean now ttl) id).trans ?_, shows.tape⟩
      exact congrArg (Option.map _) shows.channel
    | truncateAll =>
      refine ⟨(s.streams.get?_map Channel.truncate id).trans ?_, shows.tape⟩
      exact congrArg (Option.map _) shows.channel
    | _ => simp [Hand.stream?] at names

theorem claimed_foldl (sound : s.Sound) {hands : List Hand}
    (stays : ∀ h ∈ hands, h ≠ .dropReader id) (known : s.streams.get? id = some c)
    (claimed : c.reader = .claimed) :
    ∃ c', (hands.foldl Traffic.act s).streams.get? id = some c' ∧ c'.reader = .claimed := by
  induction hands generalizing s c with
  | nil => exact ⟨c, known, claimed⟩
  | cons h hands ih =>
    obtain ⟨first, rest⟩ := List.forall_mem_cons.mp stays
    exact ih (sound.step (sound.goes h)) rest ((shows_of_get? known).act sound h).channel
      (Hand.claimed_touch claimed first)

/-- A stream is new only when it has just been opened. -/
theorem start_of_new {h : Hand} (sound : s.Sound) (before : s.streams.get? id = none)
    (known : (s.act h).streams.get? id = some c) :
    ∃ capacity room now, h = .start capacity now ∧ c = .fresh room now := by
  cases names : h.stream? with
  | some k =>
    exfalso
    cases there : s.streams.get? k with
    | none =>
      rw [act_unknown sound names there, before] at known
      simp at known
    | some c' =>
      rw [act_named sound names there, record, Streams.set, Streams.get?_change, before] at known
      simp at known
  | none =>
    cases h with
    | start capacity now =>
      simp only [Traffic.act] at known
      cases ok : s.streams.start capacity now with
      | ok r =>
        rw [ok] at known
        obtain ⟨-, -, ⟨room, fresh⟩, others⟩ := sound.numbered.start ok
        have own : id = r.1 := by
          by_contra other
          simp [others id other, before] at known
        obtain rfl := Option.some.inj (known.symm.trans (own ▸ fresh))
        exact ⟨capacity, room, now, rfl, rfl⟩
      | failed | panicked => simp [ok, before] at known
    | cleanup now ttl =>
      have same := (s.streams.get?_map (·.clean now ttl) id).symm.trans known
      simp [before] at same
    | truncateAll =>
      have same := (s.streams.get?_map Channel.truncate id).symm.trans known
      simp [before] at same
    | _ => simp [Hand.stream?] at names

/-- Nobody has seen anything of a stream that waits to be claimed. -/
theorem unread_of_parked (hands : List Hand) {id : String} {c : Channel}
    (known : (after hands).streams.get? id = some c) (parked : c.reader = .parked) :
    ((after hands).tape id).results = [] := by
  induction hands using List.reverseRecOn generalizing c with
  | nil => rfl
  | append_singleton hands h ih =>
    have next : after (hands ++ [h]) = (after hands).act h := after_append hands [h]
    have sound := sound_after hands
    rw [next] at known ⊢
    cases before : (after hands).streams.get? id with
    | none =>
      cases (sound.goes h).moves id with
      | absent _ _ tape | opened _ _ tape =>
        rw [tape, sound.unknown id before]
        rfl
      | moved there => simp [before] at there
    | some c₀ =>
      have shows := (shows_of_get? before).act sound h
      obtain rfl := Option.some.inj (shows.channel.symm.trans known)
      obtain ⟨parked, same⟩ := Hand.parked_before parked
      rw [shows.tape, same, ih before parked]

/-- The name of the first stream that is opened. -/
def firstStream : String := Text.identifier "00000001" 0

end Traffic

end Pipeworks
