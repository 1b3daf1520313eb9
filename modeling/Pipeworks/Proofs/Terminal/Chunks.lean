import Pipeworks.Proofs.Results.Dues
import Pipeworks.Terminal.Console

/-!
# Streams on the console

The chunks of several streams may come to one console in any order, as long as those of each stream
keep theirs. A stream is in the list of those under way from its first chunk to its final one, and a
chunk moves no other stream in or out. So the calls for one stream write what they would write if
there were no other streams: the prefix, the chunks and the end of the line.
-/

namespace Pipeworks

namespace Terminal

/-- What has been written since an earlier state, piece by piece. -/
def since (earlier t : Terminal) : List String :=
  (t.written.take (t.written.length - earlier.written.length)).reverse

theorem since_of_written {earlier t : Terminal} {s : String} (one : t.written = s :: earlier.written) :
    earlier.since t = [s] := by
  rw [since, one, List.length_cons, Nat.add_sub_cancel_left]
  rfl

end Terminal

namespace Console

/-- The terminal after a chunk. -/
def handle (name before : String) (t : Terminal) (c : Chunk) : Terminal :=
  (deliverChunk name before c.stream c.data c.isFinal t).world

/-- What the calls for one stream write while chunks of all streams come in. -/
def writtenFor (name before id : String) (t : Terminal) : List Chunk → List String
  | [] => []
  | c :: rest =>
    let t' := handle name before t c
    (if c.stream = id then t.since t' else []) ++ writtenFor name before id t' rest

/-- The chunks of one stream among those of all. -/
def ofStream (id : String) (chunks : List Chunk) : List Piece :=
  (chunks.filter (·.stream = id)).map Chunk.piece

/-- What a console writes for the chunks of a stream by itself; `first` tells whether none of the
stream has come before. -/
def told (before : String) : Bool → List Piece → List String
  | _, [] => []
  | first, p :: rest => chunkText before first p.1 p.2 :: told before false rest

variable {name before id : String} {t : Terminal} {c : Chunk} {chunks : List Chunk}

theorem ofStream_cons (id : String) (c : Chunk) (chunks : List Chunk) :
    ofStream id (c :: chunks) =
      if c.stream = id then c.piece :: ofStream id chunks else ofStream id chunks := by
  by_cases own : c.stream = id <;> simp [ofStream, own]

theorem since_handle (name before : String) (t : Terminal) (c : Chunk) :
    t.since (handle name before t c) =
      [chunkText before (!t.begun.contains (name, c.stream)) c.data c.isFinal] :=
  Terminal.since_of_written rfl

/-! ## The streams under way -/

section Begun

variable {begun : List (String × String)} {stream other : String × String} {isFinal : Bool}

theorem count_begunAfter (once : begun.count stream ≤ 1) :
    (begunAfter begun stream isFinal).count stream = if isFinal then 0 else 1 := by
  cases isFinal with
  | true => simp [begunAfter, List.count_eq_zero]
  | false =>
    rw [begunAfter]
    by_cases there : stream ∈ begun
    · have positive := List.count_pos_iff.mpr there
      simp [there]
      omega
    · simp [there, List.count_eq_zero.mpr there]

/-- A chunk moves no other stream in or out. -/
theorem count_begunAfter_of_ne (apart : other ≠ stream) :
    (begunAfter begun stream isFinal).count other = begun.count other := by
  have kept : (begun ++ [stream]).count other = begun.count other := by
    simp [apart.symm]
  rw [begunAfter]
  cases isFinal <;> by_cases there : stream ∈ begun <;>
    simp [there, kept, List.count_filter, apart]

end Begun

/-- The streams under way are those that have had a chunk, but no final one. -/
theorem count_begun (last : FinalLast (ofStream id chunks)) (once : t.begun.count (name, id) ≤ 1) :
    (chunks.foldl (handle name before) t).begun.count (name, id) =
      if ofStream id chunks = [] then t.begun.count (name, id)
      else if (ofStream id chunks).any (·.2) then 0 else 1 := by
  induction chunks generalizing t with
  | nil => rfl
  | cons c chunks ih =>
    rw [ofStream_cons] at last ⊢
    rw [List.foldl_cons]
    by_cases own : c.stream = id
    · subst own
      rw [if_pos rfl] at last ⊢
      have here : (handle name before t c).begun.count (name, c.stream) =
          if c.isFinal then 0 else 1 := count_begunAfter once
      rw [ih last.tail (by rw [here]; split <;> decide), here, if_neg (List.cons_ne_nil _ _)]
      have any : (c.piece :: ofStream c.stream chunks).any (·.2) =
          (c.isFinal || (ofStream c.stream chunks).any (·.2)) := List.any_cons
      cases final : c.isFinal with
      | true =>
        rw [any, last.alone final, final]
        rfl
      | false =>
        rw [any, final, Bool.false_or]
        by_cases none : ofStream c.stream chunks = [] <;> simp [none]
    · rw [if_neg own] at last ⊢
      have other : (name, id) ≠ (name, c.stream) := fun same => own (Prod.mk.inj same).2.symm
      have kept : (handle name before t c).begun.count (name, id) = t.begun.count (name, id) :=
        count_begunAfter_of_ne other
      rw [ih last (by rw [kept]; exact once), kept]

theorem count_begun_of_ne {other : String × String} (apart : other.1 ≠ name) (chunks : List Chunk)
    (t : Terminal) :
    (chunks.foldl (handle name before) t).begun.count other = t.begun.count other := by
  induction chunks generalizing t with
  | nil => rfl
  | cons c chunks ih =>
    rw [List.foldl_cons, ih]
    exact count_begunAfter_of_ne fun same => apart (congrArg Prod.fst same)

/-! ## What is written for one stream -/

/-- Whatever comes in between, the calls for one stream write what they would write by themselves. -/
theorem writtenFor_eq (last : FinalLast (ofStream id chunks)) : writtenFor name before id t chunks =
    told before (!t.begun.contains (name, id)) (ofStream id chunks) := by
  induction chunks generalizing t with
  | nil => rfl
  | cons c chunks ih =>
    rw [ofStream_cons] at last ⊢
    have begun : (handle name before t c).begun = begunAfter t.begun (name, c.stream) c.isFinal := rfl
    rw [writtenFor, since_handle]
    by_cases own : c.stream = id
    · subst own
      rw [if_pos rfl] at last
      rw [if_pos rfl, if_pos rfl, told, List.singleton_append, ih last.tail]
      cases final : c.isFinal with
      | true =>
        -- Nothing follows the final chunk, so it does not matter that the stream counts as new.
        rw [last.alone final, Chunk.piece, final]
        rfl
      | false =>
        have under : (name, c.stream) ∈ (handle name before t c).begun := by
          rw [begun, begunAfter, final]
          by_cases there : (name, c.stream) ∈ t.begun <;> simp [there]
        rw [List.contains_iff_mem.mpr under, Chunk.piece, final]
        rfl
    · rw [if_neg own] at last
      have other : (name, id) ≠ (name, c.stream) := fun same => own (Prod.mk.inj same).2.symm
      have kept : (handle name before t c).begun.contains (name, id) =
          t.begun.contains (name, id) := by
        have count : (handle name before t c).begun.count (name, id) = t.begun.count (name, id) :=
          count_begunAfter_of_ne other
        rw [Bool.eq_iff_iff, List.contains_iff_mem, List.contains_iff_mem, ← List.count_pos_iff,
          ← List.count_pos_iff, count]
      rw [if_neg own, if_neg own, List.nil_append, ih last, kept]

theorem told_false (before : String) (pieces : List Piece) : told before false pieces =
    pieces.map fun p => render p.1 ++ if p.2 then "\n" else "" := by
  induction pieces with
  | nil => rfl
  | cons p pieces ih => simp [told, chunkText, ih]

theorem told_true (before : String) (p : Piece) (rest : List Piece) : told before true (p :: rest) =
    (before ++ (render p.1 ++ if p.2 then "\n" else "")) ::
      rest.map fun q => render q.1 ++ if q.2 then "\n" else "" := by
  rw [told, told_false, chunkText, if_pos rfl, String.append_assoc]

/-- Of the chunks of a stream the final one ends the line, and nothing else does. -/
theorem join_lines {pieces : List Piece} (last : FinalLast pieces) :
    String.join (pieces.map fun p => render p.1 ++ if p.2 then "\n" else "") =
      String.join (pieces.map fun p => render p.1) ++ if pieces.any (·.2) then "\n" else "" := by
  induction pieces with
  | nil => rfl
  | cons p pieces ih =>
    rw [List.map_cons, List.map_cons, String.join_cons, String.join_cons, List.any_cons]
    cases final : p.2 with
    | true =>
      rw [last.alone final]
      simp
    | false =>
      rw [Bool.false_or, ih last.tail]
      simp [String.append_assoc]

theorem join_told {pieces : List Piece} (some : pieces ≠ []) (last : FinalLast pieces) :
    String.join (told before true pieces) = before ++
      (String.join (pieces.map fun p => render p.1) ++ if pieces.any (·.2) then "\n" else "") := by
  obtain ⟨p, rest, rfl⟩ := List.exists_cons_of_ne_nil some
  rw [told_true, String.join_cons, String.append_assoc, ← String.join_cons, ← join_lines last]
  rfl

/-- A finished stream of texts is written as all its chunks put together. -/
theorem join_told_texts {pieces : List Piece} {texts : List String}
    (all : pieces.map Prod.fst = texts.map Json.string) (last : FinalLast pieces)
    (ended : pieces.any (·.2) = true) :
    String.join (told before true pieces) = wholeText before (assemble (pieces.map Prod.fst)) := by
  have some : pieces ≠ [] := by
    rintro rfl
    cases ended
  have rendered : (pieces.map fun p => render p.1) = texts := by
    have both := congrArg (List.map render) all
    rw [List.map_map, List.map_map] at both
    exact both.trans (List.map_id' texts)
  rw [join_told some last, rendered, if_pos ended, all, assemble_texts, wholeText, render,
    String.append_assoc]

end Console

open Console in
/-- Chunks of any number of streams, of which each ends with its final chunk if it has one, come to a
console that has no stream under way. For each stream it writes the prefix before the first chunk, then
the chunks, and a line end after the final one: for texts what it would write for all of them put
together. Afterwards the streams under way, each once, are those that have had a chunk and no final
one; those of other consoles stay. -/
theorem streams_read_as_wholes (name before : String) {t : Terminal}
    (fresh : ∀ id, (name, id) ∉ t.begun) {chunks : List Chunk}
    (last : ∀ id, FinalLast (ofStream id chunks)) :
    (∀ id,
      let pieces := ofStream id chunks
      let written := writtenFor name before id t chunks
      (pieces = [] → written = []) ∧
      (∀ p rest, pieces = p :: rest → written =
        (before ++ (render p.1 ++ if p.2 then "\n" else "")) ::
          rest.map fun q => render q.1 ++ if q.2 then "\n" else "") ∧
      (pieces ≠ [] → String.join written = before ++
        (String.join (pieces.map fun p => render p.1) ++ if pieces.any (·.2) then "\n" else "")) ∧
      ∀ texts : List String, pieces.map Prod.fst = texts.map Json.string → pieces.any (·.2) = true →
        ∀ t' : Terminal, t'.since (deliver before (assemble (pieces.map Prod.fst)) t').world =
          [String.join written]) ∧
    (∀ id, (chunks.foldl (handle name before) t).begun.count (name, id) =
      if ofStream id chunks = [] then 0 else if (ofStream id chunks).any (·.2) then 0 else 1) ∧
    ∀ other, other.1 ≠ name →
      (chunks.foldl (handle name before) t).begun.count other = t.begun.count other := by
  refine ⟨fun id => ?_, fun id => ?_, fun other apart => count_begun_of_ne apart chunks t⟩
  · intro pieces written
    have none : t.begun.contains (name, id) = false := by simpa using fresh id
    have wrote : written = told before true pieces := by
      rw [show written = _ from writtenFor_eq (last id), none]
      rfl
    rw [wrote]
    refine ⟨fun nothing => ?_, fun p rest split => ?_, fun some => join_told some (last id),
      fun texts all ended t' => ?_⟩
    · rw [nothing]
      rfl
    · rw [split, told_true]
    · rw [join_told_texts all (last id) ended]
      exact Terminal.since_of_written rfl
  · have unknown : t.begun.count (name, id) = 0 := List.count_eq_zero.mpr (fresh id)
    rw [count_begun (last id) (by omega), unknown]

/-- A text in two chunks, between them one of a stream that is not finished, and a stream of one
chunk. -/
def crossing : List Chunk :=
  [⟨"first", 0, .string "he", false⟩, ⟨"second", 0, .integer 7, false⟩,
    ⟨"first", 1, .string "llo", true⟩, ⟨"third", 0, .string "", true⟩]

open Console in
theorem streams_read_as_wholes_crossing :
    (∀ id, ("out", id) ∉ (Terminal.ofInput []).begun) ∧
    (∀ id, FinalLast (ofStream id crossing)) ∧
    String.join (writtenFor "out" "> " "first" (Terminal.ofInput []) crossing) = "> hello\n" ∧
    (∀ t : Terminal, t.since (deliver "> " (.string "hello") t).world = ["> hello\n"]) ∧
    String.join (writtenFor "out" "> " "second" (Terminal.ofInput []) crossing) = "> 7" ∧
    (crossing.foldl (handle "out" "> ") (Terminal.ofInput [])).begun.count ("out", "second") = 1 ∧
    (crossing.foldl (handle "out" "> ") (Terminal.ofInput [])).begun.count ("out", "third") = 0 := by
  have fresh : ∀ id, ("out", id) ∉ (Terminal.ofInput []).begun := fun _ => List.not_mem_nil
  have last : ∀ id, FinalLast (ofStream id crossing) := by
    intro id
    by_cases first : id = "first"
    · simp [first, crossing, ofStream, FinalLast, Chunk.piece]
    · simp only [crossing, ofStream_cons, Ne.symm first, if_false]
      split_ifs <;> simp [FinalLast, Chunk.piece, ofStream]
  obtain ⟨each, under, -⟩ := streams_read_as_wholes "out" "> " fresh last
  obtain ⟨-, -, joined, whole⟩ := each "first"
  have hello : String.join (writtenFor "out" "> " "first" (Terminal.ofInput []) crossing) =
      "> hello\n" := (joined (by decide +kernel)).trans (by decide +kernel)
  refine ⟨fresh, last, hello, fun t => ?_, ?_, (under "second").trans (by decide +kernel),
    (under "third").trans (by decide +kernel)⟩
  · rw [← hello]
    exact whole ["he", "llo"] rfl rfl t
  · exact ((each "second").2.2.1 (by decide +kernel)).trans (by decide +kernel)

end Pipeworks
