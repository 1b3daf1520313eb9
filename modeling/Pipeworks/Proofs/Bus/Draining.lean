import Mathlib.Data.List.Basic
import Pipeworks.Bus.Adapter
import Pipeworks.Proofs.Bus.Beside

/-!
# Outputs that read streams

An output that has claimed a stream reads it beside everybody else. It is called as the chunks come: for
each of them if it takes chunks, or else once, when the final chunk has come, for the whole result. The
first call that does not succeed ends the reading, and so does the end of the stream.
-/

namespace Pipeworks

variable {σ : Type}

/-! ## Calls of outputs -/

/-- What an output is called with. -/
inductive Handover where
  | whole (payload : Json)
  | piece (stream : String) (data : Json) (isFinal : Bool)
  deriving Repr

/-- A chunk as it is handed over. -/
def Chunk.handover (c : Chunk) : Handover := .piece c.stream c.data c.isFinal

/-- The calls of an output, with their outcomes. -/
abbrev Handovers := List (Handover × Outcome Unit)

/-- The part of the world in which all calls of an output are recorded. -/
structure Output.Records (o : Output σ) (log : σ → Handovers) : Prop where
  whole : ∀ j world, log (o.deliver j world).world =
    log world ++ [(.whole j, (o.deliver j world).outcome)]
  piece : ∀ deliver, o.deliverChunk = some deliver → ∀ id j isFinal world,
    log (deliver id j isFinal world).world =
      log world ++ [(.piece id j isFinal, (deliver id j isFinal world).outcome)]

/-- What an output is to be called with when some chunks have come. -/
def Output.owed (o : Output σ) (chunks : List Chunk) : List Handover :=
  match o.deliverChunk with
  | some _ => chunks.map Chunk.handover
  | none => if chunks.any (·.isFinal) then [.whole (assemble (chunks.map (·.data)))] else []

/-! ## What has been read -/

section Seen

variable {id : String} {sent chunks : List Chunk} {x : Chunk} {r : ReadResult}

theorem map_chunk_inj (same : sent.map ReadResult.chunk = chunks.map .chunk) : sent = chunks :=
  List.map_injective_iff.mpr (fun _ _ same => ReadResult.chunk.inj same) same

/-- Chunks that have come were sent first, and only the last of them may be final. -/
theorem Seen.came (seen : Seen id sent (chunks.map .chunk)) :
    (∃ rest, sent = chunks ++ rest) ∧ ∀ x ∈ chunks.dropLast, x.isFinal = false := by
  generalize same : chunks.map ReadResult.chunk = results at seen
  have only {r : ReadResult} (hr : r ∈ results) : ∃ x, r = .chunk x := by
    rw [← same] at hr
    obtain ⟨x, -, rfl⟩ := List.mem_map.mp hr
    exact ⟨x, rfl⟩
  cases seen with
  | going read rest part plain =>
    obtain rfl := map_chunk_inj same
    exact ⟨⟨rest, part⟩, fun x hx => plain x (List.dropLast_subset _ hx)⟩
  | ended all =>
    cases all with
    | complete before last more whole plain final =>
      cases more with
      | zero =>
        rw [List.replicate_zero, List.append_nil] at same
        obtain rfl := map_chunk_inj same
        refine ⟨⟨[], (List.append_nil _).symm⟩, ?_⟩
        rw [whole, List.dropLast_concat]
        exact plain
      | succ n =>
        obtain ⟨x, is⟩ := only (List.mem_append_right _ (List.mem_cons_self ..))
        cases is
    | cut more plain =>
      obtain ⟨x, is⟩ := only (List.mem_append_right _ (List.mem_cons_self ..))
      cases is

/-- When the end has come, all that was sent has come before. -/
theorem Seen.at_end (seen : Seen id sent (chunks.map .chunk ++ [r])) (plain : ∀ x, r ≠ .chunk x) :
    sent = chunks ∧ ((∀ x ∈ sent, x.isFinal = false) ∨
      ∃ before last, sent = before ++ [last] ∧ (∀ x ∈ before, x.isFinal = false) ∧
        last.isFinal = true) := by
  generalize same : chunks.map ReadResult.chunk ++ [r] = results at seen
  have only {r₀ : ReadResult} {rs : List ReadResult} (split : results = rs ++ [r₀]) {r₁ : ReadResult}
      (hr : r₁ ∈ rs) : ∃ x, r₁ = .chunk x := by
    obtain ⟨rfl, -⟩ := List.append_inj' (same.trans split) rfl
    obtain ⟨x, -, rfl⟩ := List.mem_map.mp hr
    exact ⟨x, rfl⟩
  have other {xs : List Chunk} (hr : r ∈ xs.map ReadResult.chunk) : False := by
    obtain ⟨x, -, rfl⟩ := List.mem_map.mp hr
    exact plain x rfl
  cases seen with
  | going read rest part none =>
    exact (other (same ▸ List.mem_append_right _ (List.mem_singleton_self r))).elim
  | ended all =>
    cases all with
    | complete before last more whole none final =>
      match more with
      | 0 =>
        rw [List.replicate_zero, List.append_nil] at same
        exact (other (same ▸ List.mem_append_right _ (List.mem_singleton_self r))).elim
      | 1 =>
        obtain ⟨read, -⟩ := List.append_inj' same rfl
        exact ⟨(map_chunk_inj read).symm, .inr ⟨before, last, whole, none, final⟩⟩
      | n + 2 =>
        rw [List.replicate_succ', ← List.append_assoc] at only
        obtain ⟨x, is⟩ := only rfl (List.mem_append_right _ (List.mem_cons_self ..))
        cases is
    | cut more none =>
      match more with
      | 0 =>
        obtain ⟨read, -⟩ := List.append_inj' same rfl
        exact ⟨(map_chunk_inj read).symm, .inl none⟩
      | n + 1 =>
        rw [List.replicate_succ', ← List.cons_append, ← List.append_assoc] at only
        obtain ⟨x, is⟩ := only rfl (List.mem_append_right _ (List.mem_cons_self ..))
        cases is

end Seen

/-! ## Reading -/

/-- Work that will go on when a call has taken its time. -/
inductive Activity.Awaits (w : Work σ) : Activity σ → Prop where
  | interrupt : Awaits w (.running (.interrupt w))
  | interruptPause (ms : Nat) : Awaits w (.running (.interrupt (.pause ms w)))
  | pause (ms : Nat) : Awaits w (.running (.pause ms w))
  | asleep (ends : Nat) : Awaits w (.asleep ends w)

/-- A call changes the world, and then the work goes on by its outcome. -/
theorem Work.call_is (call : Call σ Unit) (next : Outcome Unit → Work σ) :
    ∃ g, Work.call call next = .act g ∧ ∀ world, (g world).1 = (call world).world ∧
      ((g world).2 = next (call world).outcome ∨
        Activity.Awaits (next (call world).outcome) (.running (g world).2)) := by
  refine ⟨_, rfl, fun world => ⟨rfl, ?_⟩⟩
  dsimp only
  split
  · split
    · exact .inr .interrupt
    · exact .inr (.interruptPause _)
  · split
    · exact .inl rfl
    · exact .inr (.pause _)

/-- How many steps such work takes at most before it reads again or has ended. -/
def Activity.rank : Activity σ → Nat
  | .running (.act _) => 6
  | .running (.interrupt _) => 5
  | .running (.pause _ _) => 4
  | .asleep _ _ => 3
  | .running (.dropReader _ _) => 2
  | .running (.finish _) => 1
  | _ => 0

theorem Activity.rank_le (a : Activity σ) : a.rank ≤ 6 := by
  cases a with
  | running w => cases w <;> simp [rank]
  | asleep | emitting | writing => simp [rank]

namespace Stride

def rank : Stride σ → Nat
  | .on a => a.rank
  | .ended _ => 0

/-- Whether the work has let its reader go. -/
def HasLeft : Stride σ → Prop
  | .on (.running (.finish _)) | .ended _ => True
  | _ => False

/-- Work that reads no more. -/
inductive Leaves (id : String) : Stride σ → Prop where
  | dropping (out : Outcome Unit) : Leaves id (.on (.running (.dropReader id (.finish out))))
  | finishing (out : Outcome Unit) : Leaves id (.on (.running (.finish out)))
  | ended (out : Outcome Unit) : Leaves id (.ended out)

end Stride

namespace Output

variable {o : Output σ} {log : σ → Handovers} {id : String} {chunks : List Chunk} {calls : Handovers}
  {results : List ReadResult}

/-- Why an output reads no more: a call failed, or the stream has come to its end. -/
inductive Stops (chunks : List Chunk) (calls : Handovers) : List ReadResult → Prop where
  | failed {x : Handover × Outcome Unit} (last : calls.getLast? = some x) (bad : x.2 ≠ .ok ())
      (fine : ∀ x ∈ calls.dropLast, x.2 = .ok ()) : Stops chunks calls (chunks.map .chunk)
  | ended {r : ReadResult} (plain : ∀ x, r ≠ .chunk x) (fine : ∀ x ∈ calls, x.2 = .ok ()) :
      Stops chunks calls (chunks.map .chunk ++ [r])

/-- The work of an output that reads a stream, by what it has read and the calls so far. -/
inductive Reading (o : Output σ) (log : σ → Handovers) (id : String) :
    List ReadResult → Handovers → Stride σ → Prop where
  /-- It looks for the next chunk. -/
  | reading {chunks : List Chunk} {calls : Handovers} {collected : List Json}
      (given : calls.map Prod.fst = o.owed chunks) (fine : ∀ x ∈ calls, x.2 = .ok ())
      (kept : o.deliverChunk = none → (∀ x ∈ chunks, x.isFinal = false) →
        collected = chunks.map (·.data)) :
      Reading o log id (chunks.map .chunk) calls (.on (.running (.drain id o collected)))
  /-- It calls the output. -/
  | calling {chunks : List Chunk} {calls : Handovers} {what : Handover} {call : Call σ Unit}
      (given : calls.map Prod.fst ++ [what] = o.owed chunks) (fine : ∀ x ∈ calls, x.2 = .ok ())
      (records : ∀ world, log (call world).world = log world ++ [(what, (call world).outcome)]) :
      Reading o log id (chunks.map .chunk) calls
        (.on (.running (Work.call call (Work.drainOn id o []))))
  /-- The call takes its time. -/
  | called {chunks : List Chunk} {calls : Handovers} {what : Handover} {out : Outcome Unit}
      {a : Activity σ} (given : calls.map Prod.fst ++ [what] = o.owed chunks)
      (fine : ∀ x ∈ calls, x.2 = .ok ()) (awaits : a.Awaits (Work.drainOn id o [] out)) :
      Reading o log id (chunks.map .chunk) (calls ++ [(what, out)]) (.on a)
  | stopped {chunks : List Chunk} {calls : Handovers} {results : List ReadResult} {stride : Stride σ}
      (given : calls.map Prod.fst = o.owed chunks) (why : Stops chunks calls results)
      (leaves : stride.Leaves id) : Reading o log id results calls stride

/-- After a call the output reads on, or stops. -/
theorem reading_drainOn {what : Handover} {out : Outcome Unit}
    (given : calls.map Prod.fst ++ [what] = o.owed chunks) (fine : ∀ x ∈ calls, x.2 = .ok ()) :
    o.Reading log id (chunks.map .chunk) (calls ++ [(what, out)])
      (.on (.running (Work.drainOn id o [] out))) := by
  have all : (calls ++ [(what, out)]).map Prod.fst = o.owed chunks := by
    rw [List.map_append]
    exact given
  have failed (bad : out ≠ .ok ()) : Stops chunks (calls ++ [(what, out)]) (chunks.map .chunk) := by
    refine .failed List.getLast?_concat bad ?_
    rw [List.dropLast_concat]
    exact fine
  cases out with
  | ok =>
    refine .reading all ?_ fun whole plain => ?_
    · exact List.forall_mem_append.mpr ⟨fine, List.forall_mem_singleton.mpr rfl⟩
    · -- a whole result is only due when the final chunk has come
      have none : o.owed chunks = [] := by
        rw [owed, whole]
        exact if_neg (by simpa using plain)
      rw [none] at given
      exact absurd given (by simp)
  | failed e => exact .stopped all (failed (by simp)) (.dropping _)
  | panicked text => exact .stopped all (failed (by simp)) (.dropping _)

/-- A chunk has come. -/
theorem reading_drainChunk {collected : List Json} {x : Chunk} (records : o.Records log)
    (given : calls.map Prod.fst = o.owed chunks) (fine : ∀ x ∈ calls, x.2 = .ok ())
    (kept : o.deliverChunk = none → (∀ x ∈ chunks, x.isFinal = false) →
      collected = chunks.map (·.data)) (plain : ∀ x ∈ chunks, x.isFinal = false) :
    o.Reading log id ((chunks ++ [x]).map .chunk) calls
      (.on (.running (Work.drainChunk id o collected x))) := by
  rw [owed] at given
  rw [Work.drainChunk]
  cases deliver : o.deliverChunk with
  | some d =>
    simp only [deliver] at given ⊢
    refine .calling ?_ fine (records.piece d deliver x.stream x.data x.isFinal)
    rw [owed, deliver, given, List.map_append]
    rfl
  | none =>
    have nothing : chunks.any (·.isFinal) = false := by simpa using plain
    have so : collected ++ [x.data] = (chunks ++ [x]).map (·.data) := by
      rw [kept deliver plain, List.map_append]
      rfl
    simp only [deliver, nothing] at given
    dsimp only
    rw [so]
    split
    · rename_i final
      refine .calling ?_ fine (records.whole _)
      rw [given, owed, deliver]
      simp [final]
    · rename_i more
      refine .reading ?_ fine fun _ _ => rfl
      rw [given, owed, deliver]
      simp only [List.any_append, nothing]
      simp [more]

end Output

/-- What follows a read, unless the reader has to wait. -/
def Work.afterRead (id : String) (o : Output σ) (collected : List Json) : ReadResult → Work σ
  | .chunk c => drainChunk id o collected c
  | _ => .dropReader id done

theorem Activity.step_drain {o : Output σ} {id : String} {collected : List Json} {f f' : Floor σ}
    {stride : Stride σ} (step : step? f (.running (.drain id o collected)) = some (stride, f')) :
    ∃ r streams, f.bus.streams.read id = (r, streams) ∧ r ≠ .pending ∧
      f' = { f with bus := { f.bus with streams } } ∧
      stride = .on (.running (Work.afterRead id o collected r)) := by
  rcases found : f.bus.streams.read id with ⟨r, streams⟩
  rw [step?, workStep?, found] at step
  cases r with
  | pending => simp at step
  | chunk | truncated | ended =>
    obtain ⟨rfl, rfl⟩ := Prod.mk.inj (Option.some.inj step)
    exact ⟨_, _, rfl, by simp, rfl, rfl⟩

/-- An output that reads a stream beside everybody else. -/
structure Listening (o : Output σ) (log : σ → Handovers) (id : String) (past : Handovers)
    (s : Beside σ) : Prop where
  sound : s.traffic.Sound
  known : ∃ c, s.traffic.streams.get? id = some c ∧ (c.reader = .claimed ∨ s.work.HasLeft)
  reads : ∃ calls, log s.floor.world = past ++ calls ∧
    o.Reading log id (s.tape id).results calls s.work
  effort : s.taken + s.work.rank ≤ 7 * (s.tape id).results.length

namespace Listening

variable {o : Output σ} {log : σ → Handovers} {id : String} {past calls : Handovers} {s s' : Beside σ}
  {a : Activity σ} {chunks : List Chunk} {collected : List Json}

/-- Who has not left holds the reader. -/
theorem claimed (listening : Listening o log id past s) (stays : ¬ s.work.HasLeft) :
    ∃ c, s.traffic.streams.get? id = some c ∧ c.reader = .claimed := by
  obtain ⟨c, known, held⟩ := listening.known
  exact ⟨c, known, held.resolve_right stays⟩

theorem isRead (listening : Listening o log id past s) (stays : ¬ s.work.HasLeft) :
    s.traffic.isRead id = true := by
  obtain ⟨c, known, held⟩ := listening.claimed stays
  exact Traffic.isRead_of_known known held

/-- The work holds the reader as long as it uses it. -/
theorem holds (listening : Listening o log id past s) (on : s.work = .on a) : a.Holds s.traffic := by
  obtain ⟨calls, -, reading⟩ := listening.reads
  have isRead := listening.isRead
  rw [on] at reading isRead
  generalize (s.tape id).results = results at reading
  cases reading with
  | reading => exact isRead fun no => no
  | calling => trivial
  | called given fine awaits => cases awaits <;> trivial
  | stopped given why leaves =>
    cases leaves with
    | dropping => exact isRead fun no => no
    | finishing => trivial

/-- The work takes a step in which it does nothing to the streams. -/
theorem quiet (listening : Listening o log id past s) (on : s.work = .on a)
    (traffic : s'.traffic = s.traffic) (taken : s'.taken = s.taken + 1)
    (stays : ¬ s.work.HasLeft ∨ s'.work.HasLeft)
    (reads : ∃ calls, log s'.floor.world = past ++ calls ∧
      o.Reading log id (s.tape id).results calls s'.work) (rank : s'.work.rank < a.rank) :
    Listening o log id past s' := by
  have tape : s'.tape = s.tape := congrArg Traffic.tape traffic
  refine ⟨traffic ▸ listening.sound, ?_, tape ▸ reads, ?_⟩
  · obtain ⟨c, known, held⟩ := listening.known
    rw [traffic]
    exact ⟨c, known, stays.imp held.resolve_right fun left => left⟩
  · have effort := listening.effort
    rw [on] at effort
    have same : (Stride.on a).rank = a.rank := rfl
    rw [tape, taken]
    omega

theorem rank_drainOn (o : Output σ) (id : String) (out : Outcome Unit) :
    (Activity.running (Work.drainOn id o [] out)).rank ≤ 2 := by
  cases out with
  | ok => exact Nat.zero_le _
  | failed | panicked => exact Nat.le_refl _

/-- The output has looked for a chunk. -/
theorem read (listening : Listening o log id past s) (records : o.Records log)
    (on : s.work = .on (.running (.drain id o collected)))
    (seen : (s.tape id).results = chunks.map .chunk) (logged : log s.floor.world = past ++ calls)
    (given : calls.map Prod.fst = o.owed chunks) (fine : ∀ x ∈ calls, x.2 = .ok ())
    (kept : o.deliverChunk = none → (∀ x ∈ chunks, x.isFinal = false) →
      collected = chunks.map (·.data))
    (step : Activity.step? s.floor (.running (.drain id o collected)) = some (s'.work, s'.floor))
    (traffic : s'.traffic = (Traffic.readHands s.traffic.streams id).foldl Traffic.act s.traffic)
    (taken : s'.taken = s.taken + 1) : Listening o log id past s' := by
  have stays : ¬ s.work.HasLeft := by
    rw [on]
    exact fun no => no
  obtain ⟨c, known, claimed⟩ := listening.claimed stays
  obtain ⟨r, streams, found, ready, floor, work⟩ := Activity.step_drain step
  have sound := listening.sound.foldl (Traffic.readHands s.traffic.streams id)
  have stay : ∀ h ∈ Traffic.readHands s.traffic.streams id, h ≠ .dropReader id :=
    fun h => Traffic.mem_readHands
  have held := Traffic.claimed_foldl listening.sound stay known claimed
  have came : (s'.tape id).results = chunks.map .chunk ++ [r] := by
    have effect := Traffic.foldl_readHands (listening.isRead stays) found ready
    have tape : s'.tape = _ := congrArg Traffic.tape (traffic.trans effect)
    rw [tape]
    exact (congrArg Tape.results (Function.update_self ..)).trans (congrArg (· ++ [r]) seen)
  rw [← traffic] at sound held
  obtain ⟨c', there, held⟩ := held
  refine ⟨sound, ⟨c', there, .inl held⟩, ⟨calls, by rw [floor]; exact logged, ?_⟩, ?_⟩
  · have shown : Seen id _ (s'.tape id).results := (sound.tape id).2.2.2
    rw [came] at shown
    rw [came, work]
    cases r with
    | pending => exact absurd rfl ready
    | chunk x =>
      have all : chunks.map ReadResult.chunk ++ [.chunk x] = (chunks ++ [x]).map .chunk := by
        rw [List.map_append]
        rfl
      rw [all] at shown ⊢
      have plain := shown.came.2
      rw [List.dropLast_concat] at plain
      exact Output.reading_drainChunk records given fine kept plain
    | truncated | ended => exact .stopped given (.ended (by simp) fine) (.dropping _)
  · have effort := listening.effort
    rw [on, seen] at effort
    have none : s.taken + 0 ≤ 7 * (chunks.map ReadResult.chunk).length := effort
    have few : s'.work.rank ≤ 6 := work ▸ Activity.rank_le _
    rw [came, taken, List.length_append, List.length_singleton]
    omega

/-- The output has been called. -/
theorem call {what : Handover} {call : Call σ Unit} (listening : Listening o log id past s)
    (on : s.work = .on (.running (Work.call call (Work.drainOn id o []))))
    (seen : (s.tape id).results = chunks.map .chunk) (logged : log s.floor.world = past ++ calls)
    (given : calls.map Prod.fst ++ [what] = o.owed chunks) (fine : ∀ x ∈ calls, x.2 = .ok ())
    (records : ∀ world, log (call world).world = log world ++ [(what, (call world).outcome)])
    (step : Activity.step? s.floor (.running (Work.call call (Work.drainOn id o []))) =
      some (s'.work, s'.floor))
    (traffic : s'.traffic = s.traffic) (taken : s'.taken = s.taken + 1) :
    Listening o log id past s' := by
  obtain ⟨g, is, goes⟩ := Work.call_is call (Work.drainOn id o [])
  rw [is] at on step
  obtain ⟨work, floor⟩ := Prod.mk.inj (Option.some.inj step)
  obtain ⟨same, next⟩ := goes s.floor.world
  have stays : ¬ s.work.HasLeft := by
    rw [on]
    exact fun no => no
  refine listening.quiet on traffic taken (.inl stays)
    ⟨calls ++ [(what, (call s.floor.world).outcome)], ?_, ?_⟩ ?_
  · rw [← floor, ← List.append_assoc, ← logged, ← records, ← same]
  · rw [seen, ← work]
    rcases next with now | later
    · rw [now]
      exact Output.reading_drainOn given fine
    · exact .called given fine later
  · rw [← work]
    change (Activity.running (g s.floor.world).2).rank < 6
    rcases next with now | later
    · rw [now]
      exact Nat.lt_of_le_of_lt (rank_drainOn o id _) (by decide)
    · generalize Activity.running (g s.floor.world).2 = a at later
      cases later <;> simp [Activity.rank]

/-- The call has taken some of its time. -/
theorem await {what : Handover} {out : Outcome Unit} (listening : Listening o log id past s)
    (on : s.work = .on a) (seen : (s.tape id).results = chunks.map .chunk)
    (logged : log s.floor.world = past ++ (calls ++ [(what, out)]))
    (given : calls.map Prod.fst ++ [what] = o.owed chunks) (fine : ∀ x ∈ calls, x.2 = .ok ())
    (awaits : a.Awaits (Work.drainOn id o [] out))
    (step : a.step? s.floor = some (s'.work, s'.floor)) (traffic : s'.traffic = s.traffic)
    (taken : s'.taken = s.taken + 1) : Listening o log id past s' := by
  have stays : ¬ s.work.HasLeft := by
    rw [on]
    cases awaits <;> exact fun no => no
  -- the call goes on with less of its time to take, or the output reads on
  have goes : s'.floor.world = s.floor.world ∧
      (s'.work = .on (.running (Work.drainOn id o [] out)) ∨
        ∃ a', s'.work = .on a' ∧ a'.Awaits (Work.drainOn id o [] out) ∧ a'.rank < a.rank) := by
    cases awaits with
    | interrupt =>
      obtain ⟨work, floor⟩ := Prod.mk.inj (Option.some.inj step)
      exact ⟨floor ▸ rfl, .inl work.symm⟩
    | interruptPause ms =>
      obtain ⟨work, floor⟩ := Prod.mk.inj (Option.some.inj step)
      exact ⟨floor ▸ rfl, .inr ⟨_, work.symm, .pause ms, by simp [Activity.rank]⟩⟩
    | pause ms =>
      obtain ⟨work, floor⟩ := Prod.mk.inj (Option.some.inj step)
      exact ⟨floor ▸ rfl, .inr ⟨_, work.symm, .asleep _, by simp [Activity.rank]⟩⟩
    | asleep ends =>
      rw [Activity.step?] at step
      split at step
      · obtain ⟨work, floor⟩ := Prod.mk.inj (Option.some.inj step)
        exact ⟨floor ▸ rfl, .inl work.symm⟩
      · simp at step
  obtain ⟨world, next⟩ := goes
  refine listening.quiet on traffic taken (.inl stays) ⟨_, world ▸ logged, ?_⟩ ?_
  · rw [seen]
    rcases next with now | ⟨a', later, awaits', -⟩
    · rw [now]
      exact Output.reading_drainOn given fine
    · rw [later]
      exact .called given fine awaits'
  · rcases next with now | ⟨a', later, -, less⟩
    · rw [now]
      refine Nat.lt_of_le_of_lt (rank_drainOn o id out) ?_
      cases awaits <;> simp [Activity.rank]
    · rw [later]
      exact less

/-- The reader is let go. -/
theorem leave {results : List ReadResult} {out : Outcome Unit} (listening : Listening o log id past s)
    (on : s.work = .on (.running (.dropReader id (.finish out)))) (seen : (s.tape id).results = results)
    (logged : log s.floor.world = past ++ calls) (given : calls.map Prod.fst = o.owed chunks)
    (why : Output.Stops chunks calls results)
    (step : Activity.step? s.floor (.running (.dropReader id (.finish out))) = some (s'.work, s'.floor))
    (traffic : s'.traffic = s.traffic.act (.dropReader id)) (taken : s'.taken = s.taken + 1) :
    Listening o log id past s' := by
  obtain ⟨work, floor⟩ := Prod.mk.inj (Option.some.inj step)
  obtain ⟨c, known, -⟩ := listening.known
  have shows := (Traffic.shows_of_get? known).act listening.sound (.dropReader id)
  rw [← traffic] at shows
  have same : (s'.tape id).results = results := by
    have tape : s'.tape id = _ := shows.tape
    rw [tape, (Hand.results_touch ..).resolve_right (by simp), ← seen]
    rfl
  refine ⟨?_, ⟨_, shows.channel, .inr ?_⟩, ⟨calls, ?_, ?_⟩, ?_⟩
  · rw [traffic]
    exact listening.sound.step (listening.sound.goes (.dropReader id))
  · rw [← work]
    trivial
  · rw [← floor]
    exact logged
  · rw [same, ← work]
    exact .stopped given why (.finishing out)
  · have effort := listening.effort
    rw [on, seen] at effort
    rw [same, taken, ← work]
    exact effort

/-- Every step of the work leaves it reading as it should. -/
theorem step (listening : Listening o log id past s) (records : o.Records log) (on : s.work = .on a)
    (step : a.step? s.floor = some (s'.work, s'.floor))
    (traffic : s'.traffic = (a.hands s.floor).foldl Traffic.act s.traffic)
    (taken : s'.taken = s.taken + 1) : Listening o log id past s' := by
  obtain ⟨calls, logged, reading⟩ := listening.reads
  generalize seen : (s.tape id).results = results at reading
  rw [on] at reading
  cases reading with
  | reading given fine kept => exact listening.read records on seen logged given fine kept step traffic taken
  | calling given fine records => exact listening.call on seen logged given fine records step traffic taken
  | called given fine awaits =>
    have same : s'.traffic = s.traffic := by cases awaits <;> exact traffic
    exact listening.await on seen logged given fine awaits step same taken
  | stopped given why leaves =>
    cases leaves with
    | dropping out => exact listening.leave on seen logged given why step traffic taken
    | finishing out =>
      obtain ⟨work, floor⟩ := Prod.mk.inj (Option.some.inj step)
      refine listening.quiet on traffic taken (.inr ?_) ⟨calls, floor ▸ logged, ?_⟩ ?_
      · rw [← work]
        trivial
      · rw [seen, ← work]
        exact .stopped given why (.ended out)
      · rw [← work]
        exact Nat.zero_lt_one

theorem turn (listening : Listening o log id past s) (records : o.Records log)
    (turn : Beside.Turn (Hand.reads id) log s s') : Listening o log id past s' := by
  cases turn with
  | stepped on step =>
    exact listening.step records on step (Beside.traffic_stepped (listening.holds on) step) rfl
  | @handled h other =>
    obtain ⟨c, known, claimed⟩ := listening.known
    have shows := (Traffic.shows_of_get? known).act listening.sound h
    have results : ((s.traffic.act h).tape id).results = (s.tape id).results := by
      rw [shows.tape]
      exact Hand.results_of_other other
    have stays : h ≠ .dropReader id := by
      rintro rfl
      simp [Hand.reads] at other
    refine ⟨listening.sound.step (listening.sound.goes h), ⟨_, shows.channel, ?_⟩, ?_, ?_⟩
    · exact claimed.imp_left fun held => Hand.claimed_touch held stays
    · dsimp only
      rw [results]
      exact listening.reads
    · dsimp only
      rw [results]
      exact listening.effort
  | @elsewhere floor streams same =>
    have traffic : Beside.traffic { s with floor } = s.traffic := by
      rw [Beside.traffic, streams]
      rfl
    refine ⟨?_, ?_, ?_, listening.effort⟩
    · rw [traffic]
      exact listening.sound
    · rw [traffic]
      exact listening.known
    · dsimp only
      rw [same]
      exact listening.reads

theorem reaches (listening : Listening o log id past s) (records : o.Records log)
    (reached : Beside.Reaches (Hand.reads id) log s s') : Listening o log id past s' := by
  induction reached with
  | refl => exact listening
  | tail _ turn ih => exact ih.turn records turn

/-- The work waits only for time to pass, or for something to read. -/
theorem waits (listening : Listening o log id past s) (on : s.work = .on a)
    (stuck : a.step? s.floor = none) : (∃ ends w, a = .asleep ends w ∧ s.floor.clock < ends) ∨
      ∃ collected, a = .running (.drain id o collected) ∧
        (s.floor.bus.streams.read id).1 = .pending := by
  obtain ⟨calls, -, reading⟩ := listening.reads
  rw [on] at reading
  generalize (s.tape id).results = results at reading
  cases reading with
  | reading given fine kept =>
    refine .inr ⟨_, rfl, ?_⟩
    rcases found : s.floor.bus.streams.read id with ⟨r, streams⟩
    rw [Activity.step?, Activity.workStep?, found] at stuck
    cases r with
    | pending => rfl
    | chunk | truncated | ended => simp [Activity.onStreams, Activity.onBus] at stuck
  | calling given fine records => simp [Activity.step?, Activity.workStep?, Work.call] at stuck
  | called given fine awaits =>
    cases awaits with
    | asleep ends =>
      rw [Activity.step?] at stuck
      split at stuck
      · simp at stuck
      · rename_i early
        exact .inl ⟨ends, _, rfl, Nat.lt_of_not_le early⟩
    | interrupt | interruptPause | pause => simp [Activity.step?, Activity.workStep?] at stuck
  | stopped given why leaves =>
    cases leaves <;> simp [Activity.step?, Activity.workStep?, Activity.onStreams, Activity.onBus] at stuck

end Listening

/-- The reader of a stream has just been claimed for an output. -/
theorem listening_claimed {o : Output σ} {log : σ → Handovers} {c : Component σ}
    (takes : c.output = some o) {hands : List Hand} {id : String}
    (claimed : ((Traffic.after hands).streams.claim id).1 = .ok ()) {floor : Floor σ}
    (streams : floor.bus.streams = (Traffic.after (hands ++ [.claim id])).streams) :
    Listening o log id (log floor.world) ⟨floor, (Traffic.after (hands ++ [.claim id])).tape,
      .on (.running (drainWork c id)), 0⟩ := by
  have next : Traffic.after (hands ++ [.claim id]) = (Traffic.after hands).act (.claim id) :=
    Traffic.after_append hands [.claim id]
  rcases ok : (Traffic.after hands).streams.claim id with ⟨r, after⟩
  rw [ok] at claimed
  obtain rfl : r = .ok () := claimed
  obtain ⟨c₀, known, parked, rfl⟩ := Streams.claim_ok ok
  have traffic : Beside.traffic ⟨floor, (Traffic.after (hands ++ [.claim id])).tape,
      .on (.running (drainWork c id)), 0⟩ = Traffic.after (hands ++ [.claim id]) := by
    rw [Beside.traffic, streams]
  have shows := (Traffic.shows_of_get? known).act (Traffic.sound_after hands) (.claim id)
  have nothing : ((Traffic.after (hands ++ [.claim id])).tape id).results = [] := by
    rw [next, shows.tape, (Hand.results_touch ..).resolve_right (by simp),
      Traffic.unread_of_parked hands known parked]
  have work : drainWork c id = .drain id o [] := by rw [drainWork, takes]
  refine ⟨?_, ?_, ⟨[], (List.append_nil _).symm, ?_⟩, ?_⟩
  · rw [traffic]
    exact Traffic.sound_after _
  · rw [traffic, next]
    refine ⟨{ c₀ with reader := .claimed }, ?_, .inl rfl⟩
    simp only [Traffic.act, Traffic.claim, ok]
    exact (Traffic.shows_of_get? known).record_self.channel
  · have none : ([] : List Handover) = o.owed [] := by
      rw [Output.owed]
      split <;> rfl
    have reading : o.Reading log id (([] : List Chunk).map .chunk) []
        (.on (.running (.drain id o []))) := .reading none (by simp) fun _ _ => rfl
    dsimp only
    rw [nothing, work]
    exact reading
  · rw [work]
    exact Nat.zero_le _

/-! ## What outputs get -/

/-- What an output has been called with of a stream, by the chunks that were sent. -/
structure Output.Served (o : Output σ) (sent : List Chunk) (ends : Prop) (calls : Handovers) : Prop where
  /-- Only the last chunk may be final. -/
  final : ∀ x ∈ sent.dropLast, x.isFinal = false
  /-- No call is made after one that did not succeed. -/
  stops : ∀ x ∈ calls.dropLast, x.2 = .ok ()
  /-- An output that takes whole results gets one, if any. -/
  whole : o.deliverChunk = none → calls = [] ∨ ∃ before last out, sent = before ++ [last] ∧
    last.isFinal = true ∧ calls = [(.whole (assemble (sent.map (·.data))), out)]
  /-- In the end it has got one if the result is complete. -/
  complete : o.deliverChunk = none → ends → (∃ x ∈ sent, x.isFinal = true) → calls ≠ []
  /-- An output that takes chunks gets them in their order. -/
  pieces : o.deliverChunk ≠ none → calls.map Prod.fst <+: sent.map Chunk.handover
  /-- In the end it has got all, unless a call did not succeed. -/
  all : o.deliverChunk ≠ none → ends → (∀ x ∈ calls, x.2 = .ok ()) →
    calls.map Prod.fst = sent.map Chunk.handover

namespace Output

variable {o : Output σ} {log : σ → Handovers} {id : String} {sent chunks : List Chunk}
  {calls : Handovers} {results : List ReadResult} {stride : Stride σ}

/-- What is known of the calls of an output, by the chunks that it has read. -/
structure Called (o : Output σ) (chunks : List Chunk) (results : List ReadResult) (calls : Handovers)
    (ends : Prop) : Prop where
  read : results = chunks.map .chunk ∨ ∃ r, (∀ x, r ≠ .chunk x) ∧ results = chunks.map .chunk ++ [r]
  part : calls.map Prod.fst <+: o.owed chunks
  stops : ∀ x ∈ calls.dropLast, x.2 = .ok ()
  all : ends → calls.map Prod.fst = o.owed chunks ∧ ((∀ x ∈ calls, x.2 = .ok ()) →
    ∃ r, (∀ x, r ≠ .chunk x) ∧ results = chunks.map .chunk ++ [r])

theorem Reading.calls_known (reading : o.Reading log id results calls stride) :
    ∃ chunks, o.Called chunks results calls (∃ out, stride = .ended out) := by
  cases reading with
  | reading given fine kept =>
    exact ⟨_, .inl rfl, ⟨[], by rw [given, List.append_nil]⟩,
      fun x hx => fine x (List.dropLast_subset _ hx), nofun⟩
  | calling given fine records =>
    exact ⟨_, .inl rfl, ⟨_, given⟩, fun x hx => fine x (List.dropLast_subset _ hx), nofun⟩
  | called given fine awaits =>
    refine ⟨_, .inl rfl, ⟨[], ?_⟩, ?_, nofun⟩
    · rw [List.append_nil, List.map_append, ← given]
      rfl
    · rw [List.dropLast_concat]
      exact fine
  | stopped given why leaves =>
    cases why with
    | failed last bad fine =>
      refine ⟨_, .inl rfl, ⟨[], by rw [given, List.append_nil]⟩, fine, fun _ => ⟨given, fun good => ?_⟩⟩
      exact absurd (good _ (List.mem_of_getLast? last)) bad
    | ended plain fine =>
      exact ⟨_, .inr ⟨_, plain, rfl⟩, ⟨[], by rw [given, List.append_nil]⟩,
        fun x hx => fine x (List.dropLast_subset _ hx), fun _ => ⟨given, fun _ => ⟨_, plain, rfl⟩⟩⟩

theorem owed_pieces (singly : o.deliverChunk ≠ none) (chunks : List Chunk) :
    o.owed chunks = chunks.map Chunk.handover := by
  rw [owed]
  split
  · rfl
  · rename_i whole
    exact absurd whole singly

theorem owed_whole (whole : o.deliverChunk = none) {x : Chunk} (hx : x ∈ chunks)
    (final : x.isFinal = true) : o.owed chunks = [.whole (assemble (chunks.map (·.data)))] := by
  rw [owed, whole]
  exact if_pos (List.any_eq_true.mpr ⟨x, hx, final⟩)

theorem owed_nothing (whole : o.deliverChunk = none) (plain : ∀ x ∈ chunks, x.isFinal = false) :
    o.owed chunks = [] := by
  rw [owed, whole]
  exact if_neg (by simpa using plain)

/-- Nothing is sent after the final chunk. -/
theorem sent_of_final {rest : List Chunk} (split : sent = chunks ++ rest)
    (last : ∀ x ∈ sent.dropLast, x.isFinal = false) {x : Chunk} (hx : x ∈ chunks)
    (final : x.isFinal = true) : sent = chunks ∧ ∃ before, sent = before ++ [x] := by
  have more (inside : x ∈ sent.dropLast) : False := by simp [last x inside] at final
  have nothing : rest = [] := by
    by_contra some
    refine more ?_
    rw [split, List.dropLast_append_of_ne_nil some]
    exact List.mem_append_left _ hx
  rw [nothing, List.append_nil] at split
  refine ⟨split, sent.dropLast, ?_⟩
  have here : x ∈ sent := split ▸ hx
  have parts := List.dropLast_concat_getLast (List.ne_nil_of_mem here)
  rw [← parts] at here
  rcases List.mem_append.mp here with inside | is
  · exact absurd inside more
  · rw [List.mem_singleton.mp is, parts]

theorem Called.served {ends : Prop} (called : o.Called chunks results calls ends)
    (seen : Seen id sent results) (last : ∀ x ∈ sent.dropLast, x.isFinal = false) :
    o.Served sent ends calls := by
  have read : ∃ rest, sent = chunks ++ rest := by
    rcases called.read with rfl | ⟨r, plain, rfl⟩
    · exact seen.came.1
    · exact ⟨[], by rw [(seen.at_end plain).1, List.append_nil]⟩
  have all (ended : ends) (fine : ∀ x ∈ calls, x.2 = .ok ()) : sent = chunks := by
    obtain ⟨r, plain, rfl⟩ := (called.all ended).2 fine
    exact (seen.at_end plain).1
  obtain ⟨rest, split⟩ := read
  refine ⟨last, called.stops, fun whole => ?_, fun whole ended complete none => ?_, fun singly => ?_,
    fun singly ended fine => ?_⟩
  · obtain ⟨rest', part⟩ := called.part
    by_cases final : ∃ x ∈ chunks, x.isFinal = true
    · obtain ⟨x, hx, final⟩ := final
      obtain ⟨same, before, concat⟩ := sent_of_final split last hx final
      rw [owed_whole whole hx final] at part
      cases calls with
      | nil => exact .inl rfl
      | cons call calls =>
        obtain ⟨is, none⟩ := List.cons.inj part
        have alone : calls = [] := List.map_eq_nil_iff.mp (List.append_eq_nil_iff.mp none).1
        refine .inr ⟨before, x, call.2, concat, final, ?_⟩
        rw [alone, same, ← is]
    · rw [owed_nothing whole (by simpa using final)] at part
      exact .inl (List.map_eq_nil_iff.mp (List.append_eq_nil_iff.mp part).1)
  · obtain ⟨x, hx, final⟩ := complete
    have owed := (called.all ended).1
    rw [all ended (by simp [none])] at hx
    rw [owed_whole whole hx final, none] at owed
    simp at owed
  · rw [split, List.map_append, ← owed_pieces singly]
    exact called.part.trans (List.prefix_append ..)
  · rw [(called.all ended).1, all ended fine, owed_pieces singly]

/-- Everything that was read was sent, and the end is read once. -/
theorem Called.length_le {ends : Prop} (called : o.Called chunks results calls ends)
    (seen : Seen id sent results) : results.length ≤ sent.length + 1 := by
  rcases called.read with rfl | ⟨r, plain, rfl⟩
  · obtain ⟨rest, rfl⟩ := seen.came.1
    rw [List.length_map, List.length_append]
    omega
  · rw [List.length_append, List.length_map, (seen.at_end plain).1]
    exact Nat.le_refl _

end Output

/-- When an output has claimed a stream and reads it, whatever the others do meanwhile: an output that
takes whole results is called once at most, with all chunks put together, and has been when the work has
ended and the final chunk was sent; an output that takes chunks is called with each of them once and in
order, up to the first call that does not succeed. The work never waits while there is something to read,
and ends after a number of steps that the chunks bound. -/
theorem complete_or_nothing (o : Output σ) (log : σ → Handovers) (records : o.Records log)
    (c : Component σ) (takes : c.output = some o) (hands : List Hand) (id : String)
    (claimed : ((Traffic.after hands).streams.claim id).1 = .ok ()) (floor : Floor σ)
    (streams : floor.bus.streams = (Traffic.after (hands ++ [.claim id])).streams) (s : Beside σ)
    (reached : Beside.Reaches (Hand.reads id) log ⟨floor, (Traffic.after (hands ++ [.claim id])).tape,
      .on (.running (drainWork c id)), 0⟩ s) :
    (∃ calls, log s.floor.world = log floor.world ++ calls ∧
      o.Served (s.tape id).sent (∃ out, s.work = .ended out) calls) ∧
    (∀ a, s.work = .on a → a.step? s.floor = none →
      (∃ ends w, a = .asleep ends w ∧ s.floor.clock < ends) ∨
        (s.floor.bus.streams.read id).1 = .pending) ∧
    s.taken ≤ 7 * ((s.tape id).sent.length + 1) ∧
    (∀ texts : List String, assemble (texts.map .string) = .string (String.join texts)) ∧
    ∀ j, assemble [j] = j := by
  have listening := (listening_claimed takes claimed streams).reaches records reached
  obtain ⟨calls, logged, reading⟩ := listening.reads
  obtain ⟨chunks, called⟩ := reading.calls_known
  obtain ⟨-, -, -, seen⟩ := listening.sound.tape id
  obtain ⟨ch, known, -⟩ := listening.known
  have tracks := listening.sound.known id ch known
  refine ⟨⟨calls, logged, called.served seen tracks.last⟩, fun a on stuck => ?_, ?_, assemble_texts,
    fun _ => rfl⟩
  · rcases listening.waits on stuck with asleep | ⟨-, -, pending⟩
    · exact .inl asleep
    · exact .inr pending
  · have few := listening.effort
    have length : (s.tape id).results.length ≤ (s.tape id).sent.length + 1 := called.length_le seen
    omega

/-- An output that takes whole results and keeps them. -/
def keeper : Output Handovers where
  deliver j log := { outcome := .ok (), world := log ++ [(.whole j, .ok ())] }
  deliverChunk := none

theorem keeper_records : keeper.Records fun log => log where
  whole _ _ := rfl
  piece _ none := by simp [keeper] at none

/-- A stream with the first part of a text in it. -/
def halfWritten : List Hand :=
  [.start 2 0, .write Traffic.firstStream (.string "he") false, .push Traffic.firstStream,
    .finish Traffic.firstStream]

/-- The output has claimed the stream. -/
def keeping : Beside Handovers where
  floor := { (Exchange.fresh Policy.standard ([] : Handovers)).floor with
    bus := { Bus.fresh Policy.standard with
      streams := (Traffic.after (halfWritten ++ [.claim Traffic.firstStream])).streams } }
  tape := (Traffic.after (halfWritten ++ [.claim Traffic.firstStream])).tape
  work := .on (.running (drainWork { output := some keeper } Traffic.firstStream))
  taken := 0

/-- The output reads the first part, the second part is written, and the output reads on to the end. -/
def kept : Beside Handovers :=
  [none, some (.write Traffic.firstStream (.string "llo") true), some (.push Traffic.firstStream),
    none, none, some (.finish Traffic.firstStream), none, none, none].foldl Beside.go keeping

theorem complete_or_nothing_kept : kept.work = .ended (.ok ()) ∧
    kept.floor.world = [(.whole (.string "hello"), .ok ())] ∧
    keeper.Served (kept.tape Traffic.firstStream).sent (∃ out, kept.work = .ended out)
      kept.floor.world := by
  have reached : Beside.Reaches (Hand.reads Traffic.firstStream) (fun log => log) keeping kept :=
    keeping.reaches_go (by simp [Hand.reads])
  obtain ⟨⟨calls, logged, served⟩, -⟩ := complete_or_nothing keeper (fun log => log) keeper_records
    { output := some keeper } rfl halfWritten Traffic.firstStream rfl keeping.floor rfl kept reached
  have all : calls = kept.floor.world := logged.symm
  exact ⟨rfl, rfl, all ▸ served⟩

end Pipeworks
