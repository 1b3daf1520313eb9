import Mathlib.Data.List.Basic
import Pipeworks.Bus.Stream
import Pipeworks.Component.Call

/-!
# Calls that write to several streams

A processor that streams a result makes one call after another, and goes on by what they return. Each chunk
is taken by some of the streams. Nobody comes back who left out a chunk, so each stream has the chunks of the
first calls.
-/

namespace Pipeworks

/-- A call that writes a chunk to several streams. -/
structure FanCall where
  data : Json
  isFinal : Bool
  /-- The streams that have taken the chunk. -/
  takers : List String
  /-- What the call has returned, if it has. -/
  result : Option (Except Fault Unit)

namespace FanCall

variable {id : String} {calls : List FanCall} {call : FanCall}

/-- The chunks of some calls as one stream gets them. -/
def pieces (id : String) (calls : List FanCall) : List Chunk :=
  calls.mapIdx fun seq call => ⟨id, seq, call.data, call.isFinal⟩

/-- What a stream has got when these calls were made. -/
def chunks (id : String) (calls : List FanCall) : List Chunk :=
  pieces id (calls.filter fun call => id ∈ call.takers)

theorem chunks_of_taken (taken : id ∈ call.takers) : chunks id (calls ++ [call]) =
    chunks id calls ++ [⟨id, (chunks id calls).length, call.data, call.isFinal⟩] := by
  have last : [call].filter (fun call => id ∈ call.takers) = [call] :=
    List.filter_cons_of_pos (by simpa using taken)
  rw [chunks, List.filter_append, last, pieces, List.mapIdx_concat, chunks, pieces, List.length_mapIdx]

theorem chunks_of_refused (refused : id ∉ call.takers) :
    chunks id (calls ++ [call]) = chunks id calls := by
  have last : [call].filter (fun call => id ∈ call.takers) = [] :=
    List.filter_cons_of_neg (by simpa using refused)
  rw [chunks, List.filter_append, last, List.append_nil, chunks]

/-- What a stream gets of a call depends only on whether it took the chunk. -/
theorem chunks_congr {calls : List FanCall} {data : Json} {isFinal : Bool} {takers takers' : List String}
    {r r' : Option (Except Fault Unit)} (same : id ∈ takers ↔ id ∈ takers') :
    chunks id (calls ++ [⟨data, isFinal, takers, r⟩]) =
      chunks id (calls ++ [⟨data, isFinal, takers', r'⟩]) := by
  by_cases taken : id ∈ takers
  · rw [chunks_of_taken taken, chunks_of_taken (same.mp taken)]
  · rw [chunks_of_refused taken, chunks_of_refused fun taken' => taken (same.mpr taken')]

theorem final_mem_chunks (made : call ∈ calls) (taken : id ∈ call.takers)
    (final : call.isFinal = true) : ∃ x ∈ chunks id calls, x.isFinal = true := by
  have kept : call ∈ calls.filter fun call => id ∈ call.takers :=
    List.mem_filter.mpr ⟨made, by simpa using taken⟩
  obtain ⟨i, hi, is⟩ := List.getElem_of_mem kept
  refine ⟨_, List.mem_mapIdx.mpr ⟨i, hi, rfl⟩, ?_⟩
  rw [is]
  exact final

/-- How a call goes on from an earlier one: nobody comes back, and nothing is taken after a final chunk. -/
structure Follows (a b : FanCall) : Prop where
  takers : b.takers ⊆ a.takers
  final : a.isFinal = true → b.takers = []

/-- Calls that have returned, and perhaps one that is under way, with the streams that stay. -/
structure Tally (ids : List String) (calls now : List FanCall) (stay : List String) : Prop where
  follows : (calls ++ now).Pairwise Follows
  among : ∀ call ∈ calls ++ now, call.takers ⊆ ids
  stays : ∀ call ∈ calls, stay ⊆ call.takers
  results : ∀ call ∈ calls, ∃ r, call.result = some r ∧ (r = .ok () ↔ call.takers ≠ [])
  staying : stay ⊆ ids

namespace Tally

variable {ids stay took : List String} {now : List FanCall} {data : Json} {isFinal : Bool}
  {r : Option (Except Fault Unit)}

/-- Some streams leave. -/
theorem leave {fewer : List String} (tally : Tally ids calls now stay) (part : fewer ⊆ stay) :
    Tally ids calls now fewer :=
  { tally with
    stays := fun call made => List.Subset.trans part (tally.stays call made)
    staying := List.Subset.trans part tally.staying }

/-- The call under way goes on from all calls before. -/
theorem follows_now (tally : Tally ids calls [call] stay) : ∀ a ∈ calls, a.Follows call :=
  fun a ha => (List.pairwise_append.mp tally.follows).2.2 a ha call (List.mem_singleton_self call)

/-- Another call is under way. -/
theorem change (tally : Tally ids calls now stay) (follows : ∀ a ∈ calls, a.Follows call)
    (among : call.takers ⊆ ids) : Tally ids calls [call] stay := by
  obtain ⟨before, -⟩ := List.pairwise_append.mp tally.follows
  obtain ⟨first, -⟩ := List.forall_mem_append.mp tally.among
  refine { tally with follows := ?_, among := ?_ }
  · refine List.pairwise_append.mpr ⟨before, List.pairwise_singleton .., fun a ha b hb => ?_⟩
    obtain rfl := List.mem_singleton.mp hb
    exact follows a ha
  · exact List.forall_mem_append.mpr ⟨first, List.forall_mem_singleton.mpr among⟩

/-- A call begins. -/
theorem start (tally : Tally ids calls [] stay) : Tally ids calls [⟨data, isFinal, [], r⟩] stay :=
  tally.change (fun _ _ => ⟨List.nil_subset _, fun _ => rfl⟩) (List.nil_subset _)

/-- A stream takes the chunk of the call under way. -/
theorem take (tally : Tally ids calls [⟨data, isFinal, took, r⟩] stay) (stays : id ∈ stay)
    (plain : ∀ call ∈ calls, call.isFinal = false) :
    Tally ids calls [⟨data, isFinal, took ++ [id], r⟩] stay := by
  have last : took ⊆ ids :=
    tally.among ⟨data, isFinal, took, r⟩ (List.mem_append_right _ (List.mem_singleton_self _))
  refine tally.change (fun a ha => ⟨?_, fun final => ?_⟩) ?_
  · exact List.append_subset.mpr ⟨(tally.follows_now a ha).takers,
      List.cons_subset.mpr ⟨tally.stays a ha stays, List.nil_subset _⟩⟩
  · exact absurd (final.symm.trans (plain a ha)) (by simp)
  · exact List.append_subset.mpr ⟨last, List.cons_subset.mpr ⟨tally.staying stays, List.nil_subset _⟩⟩

/-- The call under way returns. -/
theorem finish {result : Except Fault Unit} (tally : Tally ids calls [⟨data, isFinal, took, r⟩] took)
    (right : result = .ok () ↔ took ≠ []) :
    Tally ids (calls ++ [⟨data, isFinal, took, some result⟩]) [] took := by
  have returned : Tally ids calls [⟨data, isFinal, took, some result⟩] took :=
    tally.change (fun a ha => ⟨(tally.follows_now a ha).takers, (tally.follows_now a ha).final⟩) tally.staying
  refine { returned with follows := ?_, among := ?_, stays := ?_, results := ?_ }
  · rw [List.append_nil]
    exact returned.follows
  · rw [List.append_nil]
    exact returned.among
  · exact List.forall_mem_append.mpr ⟨returned.stays, List.forall_mem_singleton.mpr (List.Subset.refl _)⟩
  · exact List.forall_mem_append.mpr ⟨returned.results, List.forall_mem_singleton.mpr ⟨_, rfl, right⟩⟩

end Tally

/-- A stream that never comes back has taken the first calls. -/
theorem taken_first (id : String) {calls : List FanCall} (follows : calls.Pairwise Follows) :
    ∃ before after, calls = before ++ after ∧ (∀ call ∈ before, id ∈ call.takers) ∧
      (∀ call ∈ after, id ∉ call.takers) ∧ chunks id calls = pieces id before := by
  suffices split : ∃ before after, calls = before ++ after ∧ (∀ call ∈ before, id ∈ call.takers) ∧
      ∀ call ∈ after, id ∉ call.takers by
    obtain ⟨before, after, rfl, first, rest⟩ := split
    refine ⟨before, after, rfl, first, rest, ?_⟩
    have all : before.filter (fun call => id ∈ call.takers) = before :=
      List.filter_eq_self.mpr (by simpa using first)
    have none : after.filter (fun call => id ∈ call.takers) = [] :=
      List.filter_eq_nil_iff.mpr (by simpa using rest)
    rw [chunks, List.filter_append, all, none, List.append_nil]
  induction calls with
  | nil => exact ⟨[], [], rfl, nofun, nofun⟩
  | cons call calls ih =>
    obtain ⟨after, rest⟩ := List.pairwise_cons.mp follows
    by_cases taken : id ∈ call.takers
    · obtain ⟨first, last, rfl, took, left⟩ := ih rest
      exact ⟨call :: first, last, rfl, List.forall_mem_cons.mpr ⟨taken, took⟩, left⟩
    · exact ⟨[], call :: calls, rfl, nofun,
        List.forall_mem_cons.mpr ⟨taken, fun b hb taken' => taken ((after b hb).takers taken')⟩⟩

end FanCall

namespace Streaming

/-- How a result goes on when these calls have returned. -/
inductive Makes (t₀ : Streaming) : List FanCall → Streaming → Prop where
  | none : Makes t₀ [] t₀
  | returned {calls : List FanCall} {data : Json} {isFinal : Bool} {next : Except Fault Unit → Streaming}
      (made : Makes t₀ calls (.write data isFinal next)) (takers : List String) (r : Except Fault Unit) :
      Makes t₀ (calls ++ [⟨data, isFinal, takers, some r⟩]) (next r)

/-- The call with which a result goes on, when some streams have taken its chunk. -/
def underWay (took : List String) : Streaming → List FanCall
  | .finish _ => []
  | .write data isFinal _ => [⟨data, isFinal, took, none⟩]

end Streaming

end Pipeworks
