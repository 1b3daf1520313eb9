import Pipeworks.Proofs.Results.Dues
import Pipeworks.Terminal.Echo

/-!
# Echoes in one piece and in words

A text that is cut after its spaces loses nothing, so the pieces of a streamed echo make the text that
is given back at once. A streamed call hands its pieces to a writer one after another, and the first
one that the writer refuses is the last one that it is handed.
-/

namespace Pipeworks

/-! ## Words -/

namespace Text

theorem flatten_cutAfterSpaces (cs : List Char) : (cutAfterSpaces cs).flatten = cs := by
  induction cs with
  | nil => rfl
  | cons c rest ih =>
    rw [cutAfterSpaces]
    by_cases space : c = ' '
    · rw [if_pos space, List.flatten_cons, ih, List.singleton_append]
    · rw [if_neg space]
      cases pieces : cutAfterSpaces rest with
      | nil =>
        rw [pieces, List.flatten_nil] at ih
        rw [← ih, List.flatten_singleton]
      | cons piece pieces' =>
        rw [pieces, List.flatten_cons] at ih
        rw [List.flatten_cons, List.cons_append, ih]

theorem join_words (s : String) : String.join (words s) = s := by
  rw [← String.toList_inj, String.toList_join, words, List.flatMap_map]
  simp only [String.toList_ofList]
  rw [List.flatMap_id', flatten_cutAfterSpaces]

end Text

/-! ## Writers -/

namespace Streaming

/-- The pieces that a writer has been handed in the end, and how the call ends. The writer answers by
all that it has been handed so far. -/
def onto (writer : List Piece → Except Fault Unit) (handed : List Piece) :
    Streaming → List Piece × Outcome Unit
  | .finish o => (handed, o)
  | .write data isFinal next =>
    let handed := handed ++ [(data, isFinal)]
    (next (writer handed)).onto writer handed

/-- Of some pieces a writer is handed all, and takes them, or those up to the first that it refuses. -/
inductive Handed (writer : List Piece → Except Fault Unit) (before : List Piece) :
    List Piece → List Piece × Outcome Unit → Prop where
  | all {pieces : List Piece}
      (took : ∀ front, front ≠ [] → front <+: pieces → writer (before ++ front) = .ok ()) :
      Handed writer before pieces (before ++ pieces, .ok ())
  | upTo {front back : List Piece} {piece : Piece} {fault : Fault}
      (took : ∀ part, part ≠ [] → part <+: front → writer (before ++ part) = .ok ())
      (refused : writer (before ++ (front ++ [piece])) = .error fault) :
      Handed writer before (front ++ piece :: back) (before ++ (front ++ [piece]), .failed fault)

variable {writer : List Piece → Except Fault Unit} {before pieces : List Piece}

theorem Handed.cons {piece : Piece} {r : List Piece × Outcome Unit}
    (answer : writer (before ++ [piece]) = .ok ())
    (handed : Handed writer (before ++ [piece]) pieces r) :
    Handed writer before (piece :: pieces) r := by
  have longer {part front : List Piece} (nonempty : part ≠ []) (begun : part <+: piece :: front)
      (took : ∀ part', part' ≠ [] → part' <+: front →
        writer (before ++ [piece] ++ part') = .ok ()) : writer (before ++ part) = .ok () := by
    obtain ⟨first, more, rfl⟩ := List.exists_cons_of_ne_nil nonempty
    obtain ⟨rfl, further⟩ := List.cons_prefix_cons.mp begun
    by_cases last : more = []
    · rw [last, answer]
    · rw [← took more last further, List.append_assoc, List.singleton_append]
  cases handed with
  | all took =>
    rw [List.append_assoc, List.singleton_append]
    exact .all fun part nonempty begun => longer nonempty begun took
  | @upTo front back last fault took refused =>
    rw [List.append_assoc, List.singleton_append] at refused ⊢
    have further : Handed writer before ((piece :: front) ++ last :: back)
        (before ++ ((piece :: front) ++ [last]), .failed fault) :=
      .upTo (fun part nonempty begun => longer nonempty begun took) refused
    exact further

theorem handed_chunks (writer : List Piece → Except Fault Unit) (before pieces : List Piece) :
    Handed writer before pieces ((chunks pieces).onto writer before) := by
  induction pieces generalizing before with
  | nil =>
    have none : Handed writer before [] (before ++ [], .ok ()) :=
      .all fun front nonempty begun => absurd (List.prefix_nil.mp begun) nonempty
    rwa [List.append_nil] at none
  | cons piece pieces ih =>
    obtain ⟨data, isFinal⟩ := piece
    rw [chunks, onto]
    cases answer : writer (before ++ [(data, isFinal)]) with
    | ok => exact (ih _).cons answer
    | error fault =>
      have first : Handed writer before ([] ++ (data, isFinal) :: pieces)
          (before ++ ([] ++ [(data, isFinal)]), .failed fault) :=
        .upTo (fun part nonempty begun => absurd (List.prefix_nil.mp begun) nonempty) answer
      exact first

/-- The last of some texts is marked; without texts there is an empty one. -/
theorem marked_texts (texts : List String) : ∃ plain last,
    marked (texts.map Json.string) =
      plain.map (fun s => (Json.string s, false)) ++ [(Json.string last, true)] ∧
    String.join (plain ++ [last]) = String.join texts := by
  induction texts with
  | nil => exact ⟨[], "", rfl, rfl⟩
  | cons first rest ih =>
    cases rest with
    | nil => exact ⟨[], first, rfl, rfl⟩
    | cons second rest =>
      obtain ⟨plain, last, pieces, joined⟩ := ih
      refine ⟨first :: plain, last, ?_, ?_⟩
      · rw [List.map_cons (l := plain), List.cons_append, ← pieces]
        rfl
      · rw [List.cons_append, String.join_cons, String.join_cons, joined]

end Streaming

/-! ## Echoes -/

/-- An echo fails alike at once and in pieces, which is when there is nothing to echo, and then no
piece is written. Otherwise its pieces are texts, of which only the last is final, and put together
they are what is given back at once. Whatever takes the pieces, none is written after one that was
refused. -/
theorem echo_in_pieces (name before : String) (input : Json) (t : Terminal) :
    let whole := (Echo.processor name before).process input t
    let streamed := (Echo.processor name before).stream input t
    (whole.world = t ∧ streamed.world = t) ∧
    ((input = .null ∧ whole.outcome = .failed (.failed name "nothing to echo") ∧
        streamed.outcome = .failed (.failed name "nothing to echo")) ∨
      (input ≠ .null ∧ ∃ streaming plain last, streamed.outcome = .ok streaming ∧
        let pieces := plain.map (fun s => (Json.string s, false)) ++ [(Json.string last, true)]
        whole.outcome = .ok (assemble (pieces.map Prod.fst)) ∧
        assemble (pieces.map Prod.fst) = .string (String.join (plain ++ [last])) ∧
        String.join (plain ++ [last]) = before ++ Console.render input ∧
        ∀ writer, Streaming.Handed writer [] pieces (streaming.onto writer []))) := by
  intro whole streamed
  refine ⟨⟨rfl, rfl⟩, ?_⟩
  by_cases nothing : input = .null
  · subst nothing
    exact .inl ⟨rfl, rfl, rfl⟩
  · have echoed : Echo.text name before input = .ok (before ++ Console.render input) := by
      cases input <;> first | rfl | exact absurd rfl nothing
    obtain ⟨plain, last, marked, joined⟩ :=
      Streaming.marked_texts (Text.words (before ++ Console.render input))
    rw [Text.join_words] at joined
    have texts : (plain.map (fun s => (Json.string s, false)) ++ [(Json.string last, true)]).map
        Prod.fst = (plain ++ [last]).map Json.string := by
      rw [List.map_append, List.map_map, List.map_append]
      rfl
    refine .inr ⟨nothing, Streaming.chunks (Echo.chunks (before ++ Console.render input)), plain, last,
      ?_, ?_, ?_, joined, fun writer => ?_⟩
    · exact congrArg (fun o => (Outcome.ofExcept o).map fun s => Streaming.chunks (Echo.chunks s)) echoed
    · rw [texts, assemble_texts, joined]
      exact congrArg (fun o => (Outcome.ofExcept o).map Json.string) echoed
    · rw [texts, assemble_texts]
    · rw [Echo.chunks, marked]
      exact Streaming.handed_chunks writer [] _

end Pipeworks
