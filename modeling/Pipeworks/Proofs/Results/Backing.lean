import Pipeworks.Proofs.Results.Dues

/-!
# Streams that back dues

A stream from which an output is to get a result is fine: it takes whatever is still to be written,
its reader is there, and nobody has cancelled it. Every operation by which a holder of a due uses
its stream then succeeds or has to wait, and the dues after it are worth what those before it were
worth. A clean-up that lets no stream expire changes nothing of this.
-/

namespace Pipeworks

namespace Channel

/-- The pieces in the buffer. -/
def coming (c : Channel) : List Piece := c.buffer.map Chunk.piece

/-- Whether the reader can be claimed. -/
def isParked (c : Channel) : Bool := c.listed && c.reader == .parked

/-- A stream that carries what is in its buffer, and then what is still to be written to it. -/
structure Fine (c : Channel) (rest : List Piece) : Prop where
  final : FinalLast (c.coming ++ rest)
  going : c.coming ++ rest ≠ [] → c.ended = false
  writing : rest ≠ [] → c.hasWriter = true ∧ c.finished = false ∧ c.reader ≠ .gone
  calm : c.closing = false ∧ c.cancelled = false

theorem fine_fresh {pieces : List Piece} (final : FinalLast pieces) (capacity now : Nat) :
    (fresh capacity now).Fine pieces where
  final := final
  going _ := rfl
  writing _ := ⟨rfl, rfl, by simp [fresh]⟩
  calm := ⟨rfl, rfl⟩

variable {c : Channel} {rest : List Piece}

theorem Fine.dropWriter (fine : c.Fine []) : c.dropWriter.Fine [] where
  final := fine.final
  going := fine.going
  writing none := absurd rfl none
  calm := fine.calm

theorem Fine.claim (fine : c.Fine rest) : Fine { c with reader := .claimed } rest where
  final := fine.final
  going := fine.going
  writing more := ⟨(fine.writing more).1, (fine.writing more).2.1, by simp⟩
  calm := fine.calm

theorem Fine.dropReader (fine : c.Fine rest) (nothing : c.coming ++ rest = []) :
    c.dropReader.Fine rest where
  final := fine.final
  going := fine.going
  writing more := absurd (List.append_eq_nil_iff.mp nothing).2 more
  calm := fine.calm

/-- The stream takes the next chunk of its writer. -/
theorem Fine.push {chunk : Chunk} (fine : c.Fine (chunk.piece :: rest)) :
    Fine (conclude { c with buffer := c.buffer ++ [chunk] } chunk) rest where
  final := by
    have final := fine.final
    rw [coming] at final
    simpa [coming, conclude] using final
  going _ := fine.going (by simp)
  writing more := by
    obtain ⟨held, unfinished, reads⟩ := fine.writing (List.cons_ne_nil _ _)
    refine ⟨held, ?_, reads⟩
    change (c.finished || chunk.isFinal) = false
    have last : FinalLast (chunk.piece :: rest) := by
      have final := fine.final
      generalize c.coming = before at final
      induction before with
      | nil => exact final
      | cons p before ih => exact ih final.tail
    rw [unfinished, Bool.false_or]
    cases final : chunk.isFinal with
    | false => rfl
    | true =>
      have final : chunk.piece.2 = true := final
      rw [FinalLast, if_pos final] at last
      exact absurd last more
  calm := fine.calm

/-- The reader takes the next chunk out of the buffer. -/
theorem Fine.pop {chunk : Chunk} {buffer : List Chunk} (fine : c.Fine rest)
    (here : c.buffer = chunk :: buffer) :
    Fine { c with buffer, ended := chunk.isFinal } rest ∧
      (chunk.isFinal = true → buffer.map Chunk.piece ++ rest = []) := by
  have final := fine.final
  rw [coming, here, List.map_cons, List.cons_append, FinalLast] at final
  have nothing (last : chunk.isFinal = true) : buffer.map Chunk.piece ++ rest = [] := by
    have last : chunk.piece.2 = true := last
    rw [if_pos last] at final
    exact final
  refine ⟨⟨?_, ?_, fine.writing, fine.calm⟩, nothing⟩
  · by_cases last : chunk.isFinal = true
    · rw [coming, nothing last]
      trivial
    · have plain : ¬ chunk.piece.2 = true := last
      rw [if_neg plain] at final
      exact final
  · intro more
    by_contra ended
    exact more (nothing (by simpa using ended))

/-- A reader that finds nothing and no writer has come to the end. -/
theorem Fine.finish (fine : c.Fine rest) (nothing : c.coming ++ rest = []) :
    Fine { c with ended := true } rest where
  final := fine.final
  going more := absurd nothing more
  writing := fine.writing
  calm := fine.calm

/-- Nothing is to come when the reader has come to the end, or finds no writer. -/
theorem Fine.nothing (fine : c.Fine rest)
    (past : c.ended = true ∨ c.buffer = [] ∧ c.hasWriter = false) : c.coming ++ rest = [] := by
  by_contra more
  rcases past with ended | ⟨empty, left⟩
  · simp [fine.going more] at ended
  · rw [coming, empty] at more
    simp [(fine.writing more).1] at left

theorem Fine.clean {now ttl : Nat} (fine : c.Fine rest)
    (served : c.listed = true → c.isExpired now ttl = true →
      (c.finished && c.reader != .parked) = true) :
    (c.clean now ttl).Fine rest ∧ (c.clean now ttl).isParked = c.isParked ∧
      (c.clean now ttl).coming = c.coming := by
  rw [Channel.clean]
  split
  · rename_i disposable
    simp only [Bool.and_eq_true, isDisposable, Bool.or_eq_true] at disposable
    obtain ⟨listed, old⟩ := disposable
    have done : (c.finished && c.reader != .parked) = true := by
      rcases old with old | done
      · exact served listed old
      · simpa using done
    simp only [Bool.and_eq_true, bne_iff_ne, ne_eq] at done
    obtain ⟨finished, taken⟩ := done
    refine ⟨⟨fine.final, fine.going, fun more => ?_, ?_⟩, ?_, rfl⟩
    · simp [(fine.writing more).2.1] at finished
    · exact ⟨fine.calm.1, by simp [fine.calm.2, finished]⟩
    · simp [isParked, forget, taken]
  · exact ⟨fine, rfl, rfl⟩

end Channel

namespace Streams

/-- After some operation the stream of one name is another one, and the others are as before. -/
structure Puts (s : Streams) (id : String) (c : Channel) (s' : Streams) : Prop where
  names : s'.names = s.names
  get? : ∀ k, s'.get? k = if k = id then some c else s.get? k

variable {s s' : Streams} {id : String} {c c' : Channel}

theorem puts_change (known : s.get? id = some c) (f : Channel → Channel) :
    s.Puts id (f c) (s.change id f) where
  names := s.names_change id f
  get? k := by
    rw [get?_change]
    by_cases own : k = id
    · rw [if_pos own, if_pos own, own, known]
      rfl
    · rw [if_neg own, if_neg own]

theorem Puts.change (puts : s.Puts id c s') (f : Channel → Channel) :
    s.Puts id (f c) (s'.change id f) where
  names := (s'.names_change id f).trans puts.names
  get? k := by
    rw [get?_change, puts.get?]
    by_cases own : k = id
    · rw [if_pos own, if_pos own, if_pos own]
      rfl
    · rw [if_neg own, if_neg own, if_neg own]

/-- What is known of the streams, when `rest` is still to be written to them. -/
def sight (s : Streams) (rest : String → List Piece) : Sight where
  reader id := (s.get? id).map fun c => (c.isParked, c.coming ++ rest id)
  writer id := (s.get? id).map fun _ => rest id

theorem sight_reader (s : Streams) (rest : String → List Piece) (id : String) :
    (s.sight rest).reader id = (s.get? id).map fun c => (c.isParked, c.coming ++ rest id) := rfl

theorem sight_writer (s : Streams) (rest : String → List Piece) (id : String) :
    (s.sight rest).writer id = (s.get? id).map fun _ => rest id := rfl

/-- Streams that carry what is in their buffers, and then what is still to be written to them. -/
structure Flows (s : Streams) (rest : String → List Piece) : Prop where
  numbered : s.IsNumbered
  fine : ∀ id c, s.get? id = some c → c.Fine (rest id)

/-- The streams back dues that are worth some goods, if what is still to be written is written. -/
def Backs (s : Streams) (dues : Multiset Due) (goods : Multiset (String × Json)) : Prop :=
  ∃ rest, s.Flows rest ∧ (s.sight rest).Backs dues goods

variable {rest : String → List Piece}

theorem Puts.flows {more : List Piece} (puts : s.Puts id c s') (flows : s.Flows rest)
    (fine : c.Fine more) : s'.Flows (Function.update rest id more) where
  numbered := by
    have numbered := flows.numbered
    rw [IsNumbered, ← puts.names] at numbered
    exact numbered
  fine k x known := by
    rw [puts.get?] at known
    by_cases own : k = id
    · subst own
      rw [if_pos rfl] at known
      obtain rfl := Option.some.inj known
      rw [Function.update_self]
      exact fine
    · rw [if_neg own] at known
      rw [Function.update_of_ne own]
      exact flows.fine k x known

theorem Puts.sight (puts : s.Puts id c s') (more : List Piece) :
    s'.sight (Function.update rest id more) =
      ⟨Function.update (s.sight rest).reader id (some (c.isParked, c.coming ++ more)),
        Function.update (s.sight rest).writer id (some more)⟩ := by
  rw [Streams.sight, Sight.mk.injEq]
  constructor <;> funext k <;> by_cases own : k = id
  · subst own
    rw [puts.get?, if_pos rfl, Function.update_self, Function.update_self]
    rfl
  · rw [puts.get?, if_neg own, Function.update_of_ne own, Function.update_of_ne own]
    rfl
  · subst own
    rw [puts.get?, if_pos rfl, Function.update_self, Function.update_self]
    rfl
  · rw [puts.get?, if_neg own, Function.update_of_ne own, Function.update_of_ne own]
    rfl

namespace Backs

variable {dues : Multiset Due} {goods : Multiset (String × Json)} {d : Due}

theorem drop (backs : s.Backs (d ::ₘ dues) goods) (nothing : ∀ v, d.worth v = 0) :
    s.Backs dues goods := by
  obtain ⟨rest, flows, backs⟩ := backs
  exact ⟨rest, flows, backs.drop (nothing _)⟩

theorem nothing : Backs .empty 0 0 :=
  ⟨fun _ => [], ⟨rfl, nofun⟩, .nothing _⟩

theorem of_nothing (backs : s.Backs 0 goods) : goods = 0 := by
  obtain ⟨rest, -, backs⟩ := backs
  exact backs.total.symm

/-- A promise comes with its worth. -/
theorem promise {output : String} {pieces : List Piece} (backs : s.Backs dues goods)
    (final : FinalLast pieces) :
    s.Backs (.promised output pieces ::ₘ dues) (goodsFor output (yield? [] pieces) + goods) := by
  obtain ⟨rest, flows, backs⟩ := backs
  exact ⟨rest, flows, backs.add rfl rfl final⟩

/-- A payload in hand comes with its worth. -/
theorem payload {output : String} {j : Json} (backs : s.Backs dues goods) :
    s.Backs (.payload output j ::ₘ dues) ((output, j) ::ₘ goods) := by
  obtain ⟨rest, flows, backs⟩ := backs
  exact ⟨rest, flows, backs.add rfl rfl trivial⟩

/-- A payload that is handed over was part of the goods. -/
theorem hand {output : String} {j : Json} (backs : s.Backs (.payload output j ::ₘ dues) goods) :
    ∃ left, goods = (output, j) ::ₘ left ∧ s.Backs dues left := by
  obtain ⟨rest, flows, backs⟩ := backs
  refine ⟨dues.bind (Due.worth (s.sight rest)), ?_, rest, flows, ?_, ?_, ?_, rfl⟩
  · rw [← backs.total, Multiset.cons_bind]
    rfl
  · exact fun x hx => backs.holds x (Multiset.mem_cons_of_mem hx)
  · have readers := backs.readers
    rw [Multiset.filterMap_cons_none _ _ rfl] at readers
    exact readers
  · have writers := backs.writers
    rw [Multiset.filterMap_cons_none _ _ rfl] at writers
    exact writers

/-- The stream of somebody who writes, and what may become of it. -/
theorem of_writing {pieces : List Piece} (backs : s.Backs (.writing id pieces ::ₘ dues) goods) :
    ∃ c, s.get? id = some c ∧ c.Fine pieces ∧ ∀ {c' more s'}, s.Puts id c' s' → c'.Fine more →
      c'.isParked = c.isParked → c'.coming ++ more = c.coming ++ pieces →
      s'.Backs (.writing id more ::ₘ dues) goods := by
  obtain ⟨rest, flows, backs⟩ := backs
  have holds : (s.sight rest).writer id = some pieces :=
    backs.holds _ (Multiset.mem_cons_self ..)
  obtain ⟨c, known, rfl⟩ := Option.map_eq_some_iff.mp holds
  refine ⟨c, known, flows.fine id c known, fun {c' more s'} puts fine parked coming => ?_⟩
  refine ⟨Function.update rest id more, puts.flows flows fine, ?_⟩
  have same : (s.sight rest).reader id = some (c'.isParked, c'.coming ++ more) := by
    rw [parked, coming, sight_reader, known]
    rfl
  rw [puts.sight, ← same, Function.update_eq_self]
  exact backs.write more

/-- The stream of somebody who reads or is about to, and what may become of it. -/
theorem of_reader (backs : s.Backs (d ::ₘ dues) goods) (key : d.reader? = some id) :
    ∃ c more, s.get? id = some c ∧ c.Fine more ∧
      d.HoldsAt (some (c.isParked, c.coming ++ more)) none ∧
      ∀ {c' e part s'}, s.Puts id c' s' → c'.Fine more → e.reader? = some id →
        e.HoldsAt (some (c'.isParked, c'.coming ++ more)) none →
        d.worthAt (some (c.isParked, c.coming ++ more)) =
          part + e.worthAt (some (c'.isParked, c'.coming ++ more)) →
        ∃ left, goods = part + left ∧ s'.Backs (e ::ₘ dues) left := by
  obtain ⟨rest, flows, backs⟩ := backs
  have holds := backs.holds _ (Multiset.mem_cons_self ..)
  have silent : d.writer? = none := by
    cases d <;> simp_all [Due.reader?, Due.writer?]
  cases known : s.get? id with
  | none =>
    have unread : (s.sight rest).reader id = none := by
      rw [sight_reader, known]
      rfl
    exact absurd unread (holds.known.1 key)
  | some c =>
    have sees : d.reader?.bind (s.sight rest).reader = some (c.isParked, c.coming ++ rest id) := by
      rw [key, Option.bind_some, sight_reader, known]
      rfl
    rw [Due.Holds, sees, silent] at holds
    refine ⟨c, rest id, rfl, flows.fine id c known, holds, ?_⟩
    intro c' e part s' puts fine after holds worth
    have same : (s.sight rest).writer id = some (rest id) := by
      rw [sight_writer, known]
      rfl
    obtain ⟨left, rfl, turned⟩ := backs.read key after holds (by rw [Due.worth, sees]; exact worth)
    refine ⟨left, rfl, Function.update rest id (rest id), puts.flows flows fine, ?_⟩
    rw [puts.sight, ← same, Function.update_eq_self]
    exact turned

/-- What loses nothing is worth what it was worth before. -/
theorem of_zero (backs : ∃ left, goods = 0 + left ∧ s.Backs dues left) : s.Backs dues goods := by
  obtain ⟨left, rfl, backs⟩ := backs
  rw [zero_add]
  exact backs

/-! ## Operations -/

theorem start {output name : String} {pieces : List Piece} {capacity now : Nat}
    (backs : s.Backs (.promised output pieces ::ₘ dues) goods)
    (ok : s.start capacity now = .ok (name, s')) :
    s'.Backs (.announced output name ::ₘ .writing name pieces ::ₘ dues) goods := by
  obtain ⟨rest, flows, backs⟩ := backs
  obtain ⟨numbered, new, ⟨room, opened⟩, others⟩ := flows.numbered.start ok
  have final : FinalLast pieces := backs.holds _ (Multiset.mem_cons_self ..)
  have fine := Channel.fine_fresh final room now
  have sight : s'.sight (Function.update rest name pieces) =
      ⟨Function.update (s.sight rest).reader name (some (true, pieces)),
        Function.update (s.sight rest).writer name (some pieces)⟩ := by
    rw [Streams.sight, Sight.mk.injEq]
    constructor <;> funext k <;> by_cases own : k = name
    · subst own
      rw [opened, Function.update_self, Function.update_self]
      rfl
    · rw [others k own, Function.update_of_ne own, Function.update_of_ne own]
      rfl
    · subst own
      rw [opened, Function.update_self, Function.update_self]
      rfl
    · rw [others k own, Function.update_of_ne own, Function.update_of_ne own]
      rfl
  refine ⟨Function.update rest name pieces, ⟨numbered, fun k c known => ?_⟩, ?_⟩
  · by_cases own : k = name
    · subst own
      rw [opened] at known
      obtain rfl := Option.some.inj known
      rw [Function.update_self]
      exact fine
    · rw [others k own] at known
      rw [Function.update_of_ne own]
      exact flows.fine k c known
  · rw [sight]
    refine backs.start ?_ ?_
    · rw [sight_reader, new]
      rfl
    · rw [sight_writer, new]
      rfl

/-- Whoever has a piece to write gets a number for it. -/
theorem number {data : Json} {isFinal : Bool} {pieces : List Piece}
    (backs : s.Backs (.writing id ((data, isFinal) :: pieces) ::ₘ dues) goods) :
    ∃ chunk s', s.number id data isFinal = .ok (chunk, s') ∧ chunk.stream = id ∧
      chunk.piece = (data, isFinal) ∧
      s'.Backs (.writing id ((data, isFinal) :: pieces) ::ₘ dues) goods := by
  obtain ⟨c, known, fine, next⟩ := backs.of_writing
  have unfinished := (fine.writing (List.cons_ne_nil _ _)).2.1
  refine ⟨⟨id, c.nextSeq, data, isFinal⟩, s.set id { c with nextSeq := c.nextSeq + 1 }, ?_, rfl,
    rfl, ?_⟩
  · rw [number_of_get? known, Channel.number, if_neg (by simp [unfinished])]
    rfl
  · exact next (puts_change known _) ⟨fine.final, fine.going, fine.writing, fine.calm⟩ rfl rfl

/-- Whoever sends a chunk has to wait, or the stream takes it. -/
theorem send {chunk : Chunk} {pieces : List Piece}
    (backs : s.Backs (.writing chunk.stream (chunk.piece :: pieces) ::ₘ dues) goods) :
    (∃ s', s.send chunk = (.full, s')) ∨
      ∃ s', s.send chunk = (.sent, s') ∧ s'.Backs (.writing chunk.stream pieces ::ₘ dues) goods := by
  obtain ⟨c, known, fine, next⟩ := backs.of_writing
  have reads := (fine.writing (List.cons_ne_nil _ _)).2.2
  have isOpen : c.isOpen = true := by simp [Channel.isOpen, reads, fine.calm.1]
  by_cases room : c.buffer.length < c.capacity
  · right
    refine ⟨(s.set chunk.stream { c with buffer := c.buffer ++ [chunk] }).conclude chunk, ?_, ?_⟩
    · rw [Streams.send, push_of_get? known, Channel.push, isOpen, Bool.not_true,
        if_neg Bool.false_ne_true, if_pos room]
    · refine next ((puts_change known _).change _) fine.push rfl ?_
      simp [Channel.coming, Channel.conclude]
  · left
    refine ⟨s.set chunk.stream c, ?_⟩
    rw [Streams.send, push_of_get? known, Channel.push, isOpen, Bool.not_true,
      if_neg Bool.false_ne_true, if_neg room]

theorem dropWriter (backs : s.Backs (.writing id [] ::ₘ dues) goods) :
    (s.change id Channel.dropWriter).Backs dues goods := by
  obtain ⟨c, known, fine, next⟩ := backs.of_writing
  have after := next (puts_change known _) fine.dropWriter rfl rfl
  exact after.drop fun _ => rfl

/-- An output that gets an announcement can claim the stream. -/
theorem claim {output : String} (backs : s.Backs (.announced output id ::ₘ dues) goods) :
    ∃ s', s.claim id = (.ok (), s') ∧ s'.Backs (.reading output id [] ::ₘ dues) goods := by
  obtain ⟨c, more, known, fine, ⟨coming, waits⟩, next⟩ := backs.of_reader rfl
  have parked : c.isParked = true := (Prod.mk.inj (Option.some.inj waits)).1
  simp only [Channel.isParked, Bool.and_eq_true, beq_iff_eq] at parked
  refine ⟨s.set id { c with reader := .claimed }, ?_, ?_⟩
  · rw [Streams.claim, known]
    simp only [parked.1, parked.2, Bool.not_true, Bool.false_eq_true, if_false, if_true]
  · exact of_zero (next (puts_change known fun _ => { c with reader := .claimed }) fine.claim rfl
      ⟨_, _, rfl⟩ (zero_add _).symm)

theorem dropReader (backs : s.Backs (.leaving id ::ₘ dues) goods) :
    (s.change id Channel.dropReader).Backs dues goods := by
  obtain ⟨c, more, known, fine, ⟨parked, empty⟩, next⟩ := backs.of_reader rfl
  have nothing : c.coming ++ more = [] := (Prod.mk.inj (Option.some.inj empty)).2
  have after : (s.change id Channel.dropReader).Backs (.leaving id ::ₘ dues) goods :=
    of_zero (next (puts_change known _) (fine.dropReader nothing) rfl
      ⟨_, congrArg (fun x => some (_, x)) nothing⟩ (zero_add _).symm)
  exact after.drop fun _ => rfl

end Backs

theorem read_of_poll {r : ReadResult} (polled : s.poll id = (r, s')) (some : r ≠ .pending) :
    s.read id = (r, s') := by
  cases r with
  | pending => exact absurd rfl some
  | chunk c => simp [Streams.read, polled]
  | truncated name => simp [Streams.read, polled]
  | ended => simp [Streams.read, polled]

theorem read_of_pending (polled : s.poll id = (.pending, s')) :
    s.read id = (s'.notice id).poll id := by
  simp [Streams.read, polled]

/-- What a read comes to from a stream that nobody has cancelled. -/
theorem read_of_calm (known : s.get? id = some c)
    (calm : c.closing = false ∧ c.cancelled = false) :
    (∃ s', s.read id = (.pending, s')) ∨
    (∃ chunk buffer, c.ended = false ∧ c.buffer = chunk :: buffer ∧
      s.read id = (.chunk chunk, s.set id { c with buffer, ended := chunk.isFinal })) ∨
    (∃ r, s.read id = (r, s.set id { c with ended := true }) ∧
      (c.ended = true ∧ r = .ended ∨ c.buffer = [] ∧ c.hasWriter = false ∧ r = .truncated id)) := by
  have polled := poll_of_get? known
  by_cases ended : c.ended = true
  · right
    right
    refine ⟨.ended, ?_, .inl ⟨ended, rfl⟩⟩
    have same : { c with ended := true } = c := by rw [← ended]
    have found : c.poll id = (.ended, c) := by rw [Channel.poll, if_pos ended]
    rw [found] at polled
    rw [same]
    exact read_of_poll polled (by simp)
  · have going : c.ended = false := by simpa using ended
    by_cases here : c.buffer = []
    · by_cases held : c.hasWriter = true
      · left
        have found : c.poll id = (.pending, c) := by
          simp [Channel.poll, going, here, held, calm.1]
        have quiet : c.notice = c := by
          cases c
          simp_all [Channel.notice]
        have again : ((s.set id c).notice id).get? id = some c := by
          rw [Streams.notice, get?_change, if_pos rfl, Streams.set, get?_change, if_pos rfl, known,
            Option.map_some, Option.map_some, quiet]
        rw [found] at polled
        exact ⟨_, (read_of_pending polled).trans ((poll_of_get? again).trans (by rw [found]))⟩
      · right
        right
        have left : c.hasWriter = false := by simpa using held
        refine ⟨.truncated id, ?_, .inr ⟨here, left, rfl⟩⟩
        have found : c.poll id = (.truncated id, { c with ended := true }) := by
          simp [Channel.poll, going, here, left]
        rw [found] at polled
        exact read_of_poll polled (by simp)
    · right
      left
      obtain ⟨chunk, buffer, here⟩ := List.exists_cons_of_ne_nil here
      refine ⟨chunk, buffer, going, here, ?_⟩
      have found : c.poll id = (.chunk chunk, { c with buffer, ended := chunk.isFinal }) := by
        simp [Channel.poll, going, here]
      rw [found] at polled
      exact read_of_poll polled (by simp)

namespace Backs

variable {dues : Multiset Due} {goods : Multiset (String × Json)}

/-- A reader waits, or gets a chunk and with the final one its payload, or comes to an end that
leaves nothing to be had. -/
theorem read {output : String} {collected : List Json}
    (backs : s.Backs (.reading output id collected ::ₘ dues) goods) :
    (∃ s', s.read id = (.pending, s')) ∨
    (∃ chunk s', s.read id = (.chunk chunk, s') ∧
      (chunk.isFinal = true → s'.Backs (.payload output (assemble (collected ++ [chunk.data])) ::ₘ
        .leaving id ::ₘ dues) goods) ∧
      (chunk.isFinal = false →
        s'.Backs (.reading output id (collected ++ [chunk.data]) ::ₘ dues) goods)) ∨
    (∃ r s', s.read id = (r, s') ∧ (r = .ended ∨ r = .truncated id) ∧
      s'.Backs (.leaving id ::ₘ dues) goods) := by
  obtain ⟨c, more, known, fine, -, next⟩ := backs.of_reader rfl
  rcases read_of_calm known fine.calm with waits | ⟨chunk, buffer, -, here, got⟩ | ⟨r, got, ends⟩
  · exact .inl waits
  · obtain ⟨after, last⟩ := fine.pop here
    have puts := puts_change known fun _ => { c with buffer, ended := chunk.isFinal }
    have worth : Due.worthAt (some (c.isParked, c.coming ++ more)) (.reading output id collected) =
        goodsFor output (if chunk.isFinal = true then some (assemble (collected ++ [chunk.data]))
          else yield? (collected ++ [chunk.data]) (buffer.map Chunk.piece ++ more)) := by
      rw [Due.worthAt, Option.bind_some, Channel.coming, here]
      rfl
    refine .inr (.inl ⟨chunk, _, got, fun final => ?_, fun plain => ?_⟩)
    · have nothing : Channel.coming { c with buffer, ended := chunk.isFinal } ++ more = [] :=
        last final
      rw [if_pos final] at worth
      obtain ⟨left, rfl, turned⟩ := next (e := .leaving id) puts after rfl
        ⟨_, congrArg (fun x => some (_, x)) nothing⟩ (worth.trans (add_zero _).symm)
      exact turned.payload
    · rw [if_neg (by simp [plain])] at worth
      exact of_zero (next (e := .reading output id (collected ++ [chunk.data])) puts after rfl
        ⟨_, _, rfl⟩ (worth.trans (zero_add _).symm))
  · have nothing := fine.nothing (ends.imp And.left fun e => ⟨e.1, e.2.1⟩)
    refine .inr (.inr ⟨r, _, got, ends.imp And.right fun e => e.2.2, ?_⟩)
    refine of_zero (next (e := .leaving id) (puts_change known _) (fine.finish nothing) rfl
      ⟨_, congrArg (fun x => some (_, x)) nothing⟩ ?_)
    rw [Due.worthAt, Option.bind_some, nothing]
    rfl

/-- A reader that wants nothing more waits, or comes to the end. -/
theorem readOut (backs : s.Backs (.leaving id ::ₘ dues) goods) :
    (∃ s', s.read id = (.pending, s')) ∨
    (∃ r s', s.read id = (r, s') ∧ (r = .ended ∨ r = .truncated id) ∧
      s'.Backs (.leaving id ::ₘ dues) goods) := by
  obtain ⟨c, more, known, fine, ⟨parked, empty⟩, next⟩ := backs.of_reader rfl
  have nothing : c.coming ++ more = [] := (Prod.mk.inj (Option.some.inj empty)).2
  rcases read_of_calm known fine.calm with waits | ⟨chunk, buffer, -, here, got⟩ | ⟨r, got, ends⟩
  · exact .inl waits
  · rw [Channel.coming, here] at nothing
    simp at nothing
  · refine .inr ⟨r, _, got, ends.imp And.right fun e => e.2.2, ?_⟩
    exact of_zero (next (puts_change known _) (fine.finish nothing) rfl
      ⟨_, congrArg (fun x => some (_, x)) nothing⟩ (zero_add _).symm)

/-- A clean-up changes nothing for those who hold dues, if only such streams have expired as are
finished and claimed. -/
theorem cleanup {now ttl : Nat} (backs : s.Backs dues goods)
    (served : ∀ id c, s.get? id = some c → c.listed = true → c.isExpired now ttl = true →
      (c.finished && c.reader != .parked) = true) :
    (s.cleanup now ttl).2.Backs dues goods := by
  obtain ⟨rest, flows, backs⟩ := backs
  have found := s.get?_map fun c => c.clean now ttl
  have same : (s.cleanup now ttl).2.sight rest = s.sight rest := by
    rw [Streams.sight, Streams.sight, Sight.mk.injEq]
    constructor <;> funext id <;> rw [Streams.cleanup, found, Option.map_map]
    · cases known : s.get? id with
      | none => rfl
      | some c =>
        obtain ⟨-, parked, coming⟩ := (flows.fine id c known).clean (served id c known)
        simp [parked, coming]
    · cases s.get? id <;> rfl
  refine ⟨rest, ⟨?_, fun id c known => ?_⟩, ?_⟩
  · have numbered := flows.numbered
    rw [IsNumbered, ← s.names_map fun c => c.clean now ttl] at numbered
    exact numbered
  · rw [Streams.cleanup, found] at known
    obtain ⟨c, before, rfl⟩ := Option.map_eq_some_iff.mp known
    exact ((flows.fine id c before).clean (served id c before)).1
  · rw [same]
    exact backs

end Backs

end Streams

end Pipeworks
