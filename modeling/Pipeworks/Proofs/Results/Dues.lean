import Mathlib.Data.Multiset.Bind
import Mathlib.Data.Multiset.Filter
import Pipeworks.Proofs.Bus.Traffic

/-!
# Results on their way

A result on its way to an output is in one place at a time: promised to the output, announced as a
stream, read from the stream, or about to be handed over. A due is the claim to it, and is worth
the payload that the output will be handed for it, if any: that depends on the chunks that are still
to come out of the stream. Whoever writes or reads a stream does so by a due of its own.

The streams back a collection of dues of a given worth. Whatever the holder of a due does at its
stream replaces the due by another one and keeps the worth of all.
-/

namespace Pipeworks

/-! ## Pieces -/

/-- A piece of a result: a chunk without its place in a stream. -/
abbrev Piece := Json × Bool

def Chunk.piece (c : Chunk) : Piece := (c.data, c.isFinal)

/-- Only the last piece may be final. -/
def FinalLast : List Piece → Prop
  | [] => True
  | p :: rest => if p.2 = true then rest = [] else FinalLast rest

/-- The payload that an output makes of some pieces after those that it has collected. -/
def yield? (collected : List Json) : List Piece → Option Json
  | [] => none
  | p :: rest =>
    if p.2 = true then some (assemble (collected ++ [p.1])) else yield? (collected ++ [p.1]) rest

theorem FinalLast.alone {p : Piece} {rest : List Piece} (last : FinalLast (p :: rest))
    (final : p.2 = true) : rest = [] := by
  rwa [FinalLast, if_pos final] at last

theorem FinalLast.tail {p : Piece} {rest : List Piece} (final : FinalLast (p :: rest)) :
    FinalLast rest := by
  rw [FinalLast] at final
  split at final
  · rw [final]
    trivial
  · exact final

theorem finalLast_concat {pieces : List Piece} {last : Piece}
    (plain : ∀ p ∈ pieces, p.2 = false) : FinalLast (pieces ++ [last]) := by
  induction pieces with
  | nil => simp [FinalLast]
  | cons p pieces ih =>
    rw [List.cons_append, FinalLast, if_neg (by simp [plain p (List.mem_cons_self ..)])]
    exact ih fun q hq => plain q (List.mem_cons_of_mem _ hq)

theorem finalLast_of_plain {pieces : List Piece} (plain : ∀ p ∈ pieces, p.2 = false) :
    FinalLast pieces := by
  induction pieces with
  | nil => trivial
  | cons p pieces ih =>
    rw [FinalLast, if_neg (by simp [plain p (List.mem_cons_self ..)])]
    exact ih fun q hq => plain q (List.mem_cons_of_mem _ hq)

theorem yield?_concat {pieces : List Piece} {data : Json} (plain : ∀ p ∈ pieces, p.2 = false)
    (collected : List Json) :
    yield? collected (pieces ++ [(data, true)]) =
      some (assemble (collected ++ pieces.map Prod.fst ++ [data])) := by
  induction pieces generalizing collected with
  | nil => simp [yield?]
  | cons p pieces ih =>
    rw [List.cons_append, yield?, if_neg (by simp [plain p (List.mem_cons_self ..)]),
      ih fun q hq => plain q (List.mem_cons_of_mem _ hq)]
    simp

theorem yield?_of_plain {pieces : List Piece} (plain : ∀ p ∈ pieces, p.2 = false)
    (collected : List Json) : yield? collected pieces = none := by
  induction pieces generalizing collected with
  | nil => rfl
  | cons p pieces ih =>
    rw [yield?, if_neg (by simp [plain p (List.mem_cons_self ..)])]
    exact ih (fun q hq => plain q (List.mem_cons_of_mem _ hq)) _

/-! ## Dues -/

/-- A claim to a result on its way, or a part in bringing it there. -/
inductive Due where
  /-- A result in pieces, for an output that has no stream for it yet. -/
  | promised (output : String) (pieces : List Piece)
  /-- A stream that its output has not claimed yet. -/
  | announced (output stream : String)
  /-- A stream that its output reads; the payload will begin with the chunks collected. -/
  | reading (output stream : String) (collected : List Json)
  /-- A stream that its reader wants nothing more of. -/
  | leaving (stream : String)
  /-- A payload that is about to be handed to its output. -/
  | payload (output : String) (j : Json)
  /-- Pieces that are still to be written to a stream, before its writer leaves. -/
  | writing (stream : String) (rest : List Piece)

/-- A payload for an output, if there is one. -/
def goodsFor (output : String) : Option Json → Multiset (String × Json)
  | none => 0
  | some j => {(output, j)}

namespace Due

/-- The stream whose reader the due is about. -/
def reader? : Due → Option String
  | announced _ id | reading _ id _ | leaving id => some id
  | _ => none

/-- The stream whose writer the due is about. -/
def writer? : Due → Option String
  | writing id _ => some id
  | _ => none

/-- Whether a due is in order. Of its stream it is known whether it waits to be claimed and what
is to come out of it (`reader`), and what is to be written to it (`writer`). -/
def HoldsAt (reader : Option (Bool × List Piece)) (writer : Option (List Piece)) : Due → Prop
  | promised _ pieces => FinalLast pieces
  | announced _ _ => ∃ coming, reader = some (true, coming)
  | reading _ _ _ => ∃ parked coming, reader = some (parked, coming)
  | leaving _ => ∃ parked, reader = some (parked, [])
  | payload _ _ => True
  | writing _ rest => writer = some rest

/-- What will be handed to outputs for a due, by what is to come out of its stream. -/
def worthAt (reader : Option (Bool × List Piece)) : Due → Multiset (String × Json)
  | promised output pieces => goodsFor output (yield? [] pieces)
  | announced output _ => goodsFor output (reader.bind fun r => yield? [] r.2)
  | reading output _ collected => goodsFor output (reader.bind fun r => yield? collected r.2)
  | payload output j => {(output, j)}
  | leaving _ | writing _ _ => 0

end Due

/-- What is known of every stream, by those who read it and by those who write it. -/
structure Sight where
  reader : String → Option (Bool × List Piece)
  writer : String → Option (List Piece)

namespace Due

variable {d : Due} {v v' : Sight} {id : String}

def Holds (v : Sight) (d : Due) : Prop :=
  d.HoldsAt (d.reader?.bind v.reader) (d.writer?.bind v.writer)

def worth (v : Sight) (d : Due) : Multiset (String × Json) :=
  d.worthAt (d.reader?.bind v.reader)

/-- A due depends on its own stream only. -/
theorem seen (reader : ∀ id, d.reader? = some id → v'.reader id = v.reader id)
    (writer : ∀ id, d.writer? = some id → v'.writer id = v.writer id) :
    (d.Holds v → d.Holds v') ∧ d.worth v' = d.worth v := by
  have readers : d.reader?.bind v'.reader = d.reader?.bind v.reader := by
    cases key : d.reader? with
    | none => rfl
    | some id => exact reader id key
  have writers : d.writer?.bind v'.writer = d.writer?.bind v.writer := by
    cases key : d.writer? with
    | none => rfl
    | some id => exact writer id key
  rw [Holds, Holds, worth, worth, readers, writers]
  exact ⟨fun holds => holds, rfl⟩

/-- A due knows its stream. -/
theorem Holds.known (holds : d.Holds v) :
    (d.reader? = some id → v.reader id ≠ none) ∧ (d.writer? = some id → v.writer id ≠ none) := by
  rw [Holds] at holds
  cases d <;> simp only [reader?, writer?, Option.some.injEq, reduceCtorEq, false_implies,
    true_and, and_true, and_self]
  case announced output stream =>
    rintro rfl none
    obtain ⟨coming, sees⟩ := holds
    exact absurd (sees.symm.trans none) (by simp)
  case reading output stream collected =>
    rintro rfl none
    obtain ⟨parked, coming, sees⟩ := holds
    exact absurd (sees.symm.trans none) (by simp)
  case leaving stream =>
    rintro rfl none
    obtain ⟨parked, sees⟩ := holds
    exact absurd (sees.symm.trans none) (by simp)
  case writing stream rest =>
    rintro rfl none
    exact absurd (holds.symm.trans none) (by simp)

end Due

/-! ## What streams back -/

/-- Dues that are in order, no two of them about the same end of a stream, and what they are worth
together. -/
structure Sight.Backs (v : Sight) (dues : Multiset Due) (goods : Multiset (String × Json)) :
    Prop where
  holds : ∀ d ∈ dues, d.Holds v
  readers : (dues.filterMap Due.reader?).Nodup
  writers : (dues.filterMap Due.writer?).Nodup
  total : dues.bind (Due.worth v) = goods

namespace Sight.Backs

variable {v v' : Sight} {d d' : Due} {dues : Multiset Due} {goods : Multiset (String × Json)}
  {id : String}

theorem nothing (v : Sight) : v.Backs 0 0 where
  holds := nofun
  readers := Multiset.nodup_zero
  writers := Multiset.nodup_zero
  total := rfl

theorem drop (backs : v.Backs (d ::ₘ dues) goods) (nothing : d.worth v = 0) :
    v.Backs dues goods where
  holds x hx := backs.holds x (Multiset.mem_cons_of_mem hx)
  readers := Multiset.nodup_of_le (Multiset.filterMap_le_filterMap _ (Multiset.le_cons_self ..))
    backs.readers
  writers := Multiset.nodup_of_le (Multiset.filterMap_le_filterMap _ (Multiset.le_cons_self ..))
    backs.writers
  total := by
    rw [← backs.total, Multiset.cons_bind, nothing, zero_add]

/-- A due that is not about a stream comes with its worth. -/
theorem add (backs : v.Backs dues goods) (reader : d.reader? = none) (writer : d.writer? = none)
    (holds : d.Holds v) : v.Backs (d ::ₘ dues) (d.worth v + goods) where
  holds x hx := by
    rcases Multiset.mem_cons.mp hx with rfl | hx
    · exact holds
    · exact backs.holds x hx
  readers := by
    rw [Multiset.filterMap_cons_none _ _ reader]
    exact backs.readers
  writers := by
    rw [Multiset.filterMap_cons_none _ _ writer]
    exact backs.writers
  total := by
    rw [Multiset.cons_bind, backs.total]

/-- Nobody else has the end of the stream that a due is about. -/
theorem alone (backs : v.Backs (d ::ₘ dues) goods) {x : Due} (hx : x ∈ dues) :
    (d.reader? = some id → x.reader? ≠ some id) ∧ (d.writer? = some id → x.writer? ≠ some id) := by
  constructor
  · intro key same
    have nodup := backs.readers
    rw [Multiset.filterMap_cons_some _ _ _ key, Multiset.nodup_cons] at nodup
    exact nodup.1 ((Multiset.mem_filterMap _ _).mpr ⟨x, hx, same⟩)
  · intro key same
    have nodup := backs.writers
    rw [Multiset.filterMap_cons_some _ _ _ key, Multiset.nodup_cons] at nodup
    exact nodup.1 ((Multiset.mem_filterMap _ _).mpr ⟨x, hx, same⟩)

/-- One due is replaced by another about the same end of the same stream, and by something of the
worth that it loses; the others see no change. -/
theorem turn {part : Multiset (String × Json)} (backs : v.Backs (d ::ₘ dues) goods)
    (reader : d'.reader? = d.reader?) (writer : d'.writer? = d.writer?)
    (readers : ∀ x ∈ dues, ∀ id, x.reader? = some id → v'.reader id = v.reader id)
    (writers : ∀ x ∈ dues, ∀ id, x.writer? = some id → v'.writer id = v.writer id)
    (holds : d'.Holds v') (worth : d.worth v = part + d'.worth v') :
    ∃ rest, goods = part + rest ∧ v'.Backs (d' ::ₘ dues) rest := by
  have seen {x : Due} (hx : x ∈ dues) := Due.seen (readers x hx) (writers x hx)
  refine ⟨d'.worth v' + dues.bind (Due.worth v'), ?_, ?_, ?_, ?_, Multiset.cons_bind ..⟩
  · rw [← backs.total, Multiset.cons_bind, worth, add_assoc,
      Multiset.bind_congr fun x hx => (seen hx).2]
  · intro x hx
    rcases Multiset.mem_cons.mp hx with rfl | hx
    · exact holds
    · exact (seen hx).1 (backs.holds x (Multiset.mem_cons_of_mem hx))
  · have nodup := backs.readers
    cases key : d.reader? with
    | none =>
      rw [Multiset.filterMap_cons_none _ _ key] at nodup
      rw [Multiset.filterMap_cons_none _ _ (reader.trans key)]
      exact nodup
    | some id =>
      rw [Multiset.filterMap_cons_some _ _ _ key] at nodup
      rw [Multiset.filterMap_cons_some _ _ _ (reader.trans key)]
      exact nodup
  · have nodup := backs.writers
    cases key : d.writer? with
    | none =>
      rw [Multiset.filterMap_cons_none _ _ key] at nodup
      rw [Multiset.filterMap_cons_none _ _ (writer.trans key)]
      exact nodup
    | some id =>
      rw [Multiset.filterMap_cons_some _ _ _ key] at nodup
      rw [Multiset.filterMap_cons_some _ _ _ (writer.trans key)]
      exact nodup

/-- Whoever writes changes what is to be written, and its reader sees no difference. -/
theorem write {pieces : List Piece} (backs : v.Backs (.writing id pieces ::ₘ dues) goods)
    (rest : List Piece) :
    Sight.Backs { v with writer := Function.update v.writer id (some rest) }
      (.writing id rest ::ₘ dues) goods := by
  have others : ∀ x ∈ dues, ∀ k, x.writer? = some k →
      Function.update v.writer id (some rest) k = v.writer k := by
    intro x hx k key
    refine Function.update_of_ne ?_ _ _
    rintro rfl
    exact (backs.alone hx).2 rfl key
  have turned : ∃ same, goods = 0 + same ∧ Sight.Backs
      ⟨v.reader, Function.update v.writer id (some rest)⟩ (.writing id rest ::ₘ dues) same :=
    backs.turn rfl rfl (fun _ _ _ _ => rfl) others (Function.update_self ..) rfl
  obtain ⟨same, rfl, after⟩ := turned
  rw [zero_add]
  exact after

/-- Whoever reads changes what is to come, and its writer sees no difference. -/
theorem read {part : Multiset (String × Json)} {sees : Option (Bool × List Piece)}
    (backs : v.Backs (d ::ₘ dues) goods) (before : d.reader? = some id)
    (after : d'.reader? = some id) (holds : d'.HoldsAt sees none)
    (worth : d.worth v = part + d'.worthAt sees) :
    ∃ rest, goods = part + rest ∧
      Sight.Backs { v with reader := Function.update v.reader id sees } (d' ::ₘ dues) rest := by
  have silent {x : Due} (key : x.reader? = some id) : x.writer? = none := by
    cases x <;> simp_all [Due.reader?, Due.writer?]
  have here : d'.reader?.bind (Function.update v.reader id sees) = sees := by
    rw [after]
    exact Function.update_self ..
  refine backs.turn (after.trans before.symm) ((silent after).trans (silent before).symm) ?_
    (fun _ _ _ _ => rfl) ?_ ?_
  · intro x hx k key
    refine Function.update_of_ne ?_ _ _
    rintro rfl
    exact (backs.alone hx).1 before key
  · rw [Due.Holds, here, silent after]
    exact holds
  · rw [worth, Due.worth, here]

/-- A promise becomes a stream that is announced and has still to be written. -/
theorem start {output : String} {pieces : List Piece}
    (backs : v.Backs (.promised output pieces ::ₘ dues) goods) (unread : v.reader id = none)
    (unwritten : v.writer id = none) :
    Sight.Backs ⟨Function.update v.reader id (some (true, pieces)),
      Function.update v.writer id (some pieces)⟩
      (.announced output id ::ₘ .writing id pieces ::ₘ dues) goods := by
  have old {x : Due} (hx : x ∈ dues) := backs.holds x (Multiset.mem_cons_of_mem hx)
  have reads {x : Due} (hx : x ∈ dues) : x.reader? ≠ some id := fun key =>
    (old hx).known.1 key unread
  have writes {x : Due} (hx : x ∈ dues) : x.writer? ≠ some id := fun key =>
    (old hx).known.2 key unwritten
  have seen {x : Due} (hx : x ∈ dues) : (x.Holds v → x.Holds ⟨Function.update v.reader id
      (some (true, pieces)), Function.update v.writer id (some pieces)⟩) ∧
      x.worth ⟨Function.update v.reader id (some (true, pieces)),
        Function.update v.writer id (some pieces)⟩ = x.worth v := by
    refine Due.seen (fun k key => Function.update_of_ne ?_ _ _)
      (fun k key => Function.update_of_ne ?_ _ _)
    · rintro rfl
      exact reads hx key
    · rintro rfl
      exact writes hx key
  have readers := backs.readers
  have writers := backs.writers
  rw [Multiset.filterMap_cons_none _ _ rfl] at readers writers
  refine ⟨?_, ?_, ?_, ?_⟩
  · intro x hx
    rcases Multiset.mem_cons.mp hx with rfl | hx
    · exact ⟨pieces, Function.update_self ..⟩
    · rcases Multiset.mem_cons.mp hx with rfl | hx
      · exact Function.update_self ..
      · exact (seen hx).1 (old hx)
  · rw [Multiset.filterMap_cons_some Due.reader? (.announced output id) _ rfl,
      Multiset.filterMap_cons_none _ _ rfl, Multiset.nodup_cons]
    refine ⟨fun key => ?_, readers⟩
    obtain ⟨x, hx, key⟩ := (Multiset.mem_filterMap _ _).mp key
    exact reads hx key
  · rw [Multiset.filterMap_cons_none _ _ rfl,
      Multiset.filterMap_cons_some Due.writer? (.writing id pieces) _ rfl, Multiset.nodup_cons]
    refine ⟨fun key => ?_, writers⟩
    obtain ⟨x, hx, key⟩ := (Multiset.mem_filterMap _ _).mp key
    exact writes hx key
  · have worth : (Due.announced output id).worth ⟨Function.update v.reader id (some (true, pieces)),
        Function.update v.writer id (some pieces)⟩ = (Due.promised output pieces).worth v := by
      simp [Due.worth, Due.worthAt, Due.reader?]
    rw [← backs.total, Multiset.cons_bind, Multiset.cons_bind, Multiset.cons_bind, worth,
      Multiset.bind_congr fun x hx => (seen hx).2]
    exact congrArg _ (zero_add _)

end Sight.Backs

end Pipeworks
