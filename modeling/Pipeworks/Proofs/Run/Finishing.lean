import Pipeworks.Proofs.Run.Passage
import Pipeworks.Proofs.Run.Rest

/-!
# A chain comes to its end

When the input of a chain gives values and then something that ends a run, the steps that the chain
takes by itself lead out of it, unless a component interrupts the run. Each of them leaves less to
do: fewer pulls, fewer calls for the value in work, or a call that has ended.
-/

namespace Pipeworks

variable {σ : Type}

/-- A script gives some values that do not end a run, and then an outcome that ends it. -/
structure StopsAfter (inputName exitToken : String) (script : Nat → Outcome Pulled)
    (values : List Json) (reason : ExitReason) : Prop where
  given : ∀ i v, values[i]? = some v → script i = .ok (.value v)
  going : ∀ v ∈ values, exitRequested exitToken (.value v) = none
  stops : stopReason inputName exitToken (script values.length) = some reason

section Scripts

variable {inputName exitToken : String} {script : Nat → Outcome Pulled} {values others : List Json}
  {reason : ExitReason} {pulled pulled' more : List (Outcome Pulled)}

/-- All that is pulled by a run that follows the script to its end. -/
def StopsAfter.whole (values : List Json) (last : Outcome Pulled) : List (Outcome Pulled) :=
  values.map (fun v => .ok (.value v)) ++ [last]

theorem StopsAfter.received (ends : StopsAfter inputName exitToken script values reason) :
    Received exitToken values [script values.length] (whole values (script values.length)) :=
  ⟨rfl, ends.going⟩

theorem StopsAfter.follows (ends : StopsAfter inputName exitToken script values reason) :
    Follows script (whole values (script values.length)) := by
  intro i o here
  rw [whole, List.getElem?_append] at here
  split at here
  · rw [List.getElem?_map] at here
    obtain ⟨v, there, rfl⟩ := Option.map_eq_some_iff.mp here
    exact (ends.given i v there).symm
  · rename_i past
    obtain ⟨at_end, rfl⟩ := List.getElem?_eq_some_iff.mp here
    simp at past at_end
    obtain rfl : i = values.length := by omega
    simp

theorem Follows.isPrefix (follows : Follows script pulled) (follows' : Follows script pulled')
    (shorter : pulled.length ≤ pulled'.length) : pulled <+: pulled' := by
  rw [List.prefix_iff_getElem?]
  intro i inside
  rw [List.getElem?_eq_getElem (by omega)]
  have here := follows i _ (List.getElem?_eq_getElem inside)
  have there := follows' i _ (List.getElem?_eq_getElem (by omega))
  rw [here, there]

theorem StopsAfter.length_le (ends : StopsAfter inputName exitToken script values reason)
    (received : Received exitToken others more pulled) (follows : Follows script pulled) :
    others.length ≤ values.length :=
  ends.received.length_le received ends.follows follows ends.stops

/-- What has been pulled from a script is a beginning of what it gives up to its end. -/
theorem StopsAfter.isPrefix (ends : StopsAfter inputName exitToken script values reason)
    (received : Received exitToken others more pulled) (few : more.length ≤ 1)
    (follows : Follows script pulled) : pulled <+: whole values (script values.length) := by
  refine follows.isPrefix ends.follows ?_
  have shorter := ends.length_le received follows
  rw [received.outcomes, whole]
  simp
  omega

/-- A run that was ended has followed the script to its end. -/
theorem StopsAfter.same {o : Outcome Pulled} {reason' : ExitReason}
    (ends : StopsAfter inputName exitToken script values reason)
    (received : Received exitToken others [o] pulled) (follows : Follows script pulled)
    (stops : stopReason inputName exitToken o = some reason') :
    others = values ∧ pulled = whole values (script values.length) ∧ reason' = reason := by
  obtain ⟨rfl, rfl⟩ := received.same ends.received follows ends.follows stops ends.stops
  exact ⟨rfl, received.outcomes, Option.some.inj (stops.symm.trans ends.stops)⟩

end Scripts

/-! ## What is left to do -/

/-- The steps that the worker takes for the value in work, at most. -/
def Place.todo (line : Line σ) : Place σ → Nat
  | .ready | .stopped _ => 0
  | .pulling .. => 2 * line.processors.length + 2 * line.outputs.length + 3
  | .processing left _ => 2 * left.length + 2 * line.outputs.length + 2
  | .inProcessor _ _ _ left => 2 * left.length + 2 * line.outputs.length + 3
  | .delivering left _ => 2 * left.length + 1
  | .inOutput _ _ _ left _ => 2 * left.length + 2

theorem Chain.length_pulls_le (line : Line σ) (c : Chain σ) (s : ChainStep) :
    (c.pulls line s).length ≤ 1 := by
  cases s with
  | worker =>
    rw [Chain.pulls]
    split
    · split
      · exact Nat.zero_le 1
      · exact Nat.le_refl 1
    · exact Nat.zero_le 1
  | _ => exact Nat.zero_le 1

/-- The steps of the worker up to the end of a number of pulls, at most. -/
def Chain.work (line : Line σ) (pulls : Nat) (c : Chain σ) : Nat :=
  pulls * (2 * line.processors.length + 2 * line.outputs.length + 4) + c.place.todo line

/-- Whether a call goes on. -/
def Chain.busy (c : Chain σ) : Bool := c.place.ends?.any (c.clock < ·)

/-- The steps that a chain takes by itself while it makes a number of pulls more, at most. -/
def Chain.todo (line : Line σ) (pulls : Nat) (c : Chain σ) : Nat :=
  2 * c.work line pulls + c.busy.toNat + (c.watch matches .watching).toNat

section Chains

variable {line : Line σ} {c c' : Chain σ} {pulls : Nat}

theorem Chain.choose_of_busy (watching : c.watch = .watching)
    (uninterrupted : c.interrupted = false) (busy : c.busy = true) :
    ∃ ends, c.place.ends? = some ends ∧ c.clock < ends ∧
      c.choose = some (.wait (ends - c.clock)) := by
  rw [Chain.busy, Option.any_eq_true] at busy
  obtain ⟨ends, here, late⟩ := busy
  have late : c.clock < ends := by simpa using late
  refine ⟨ends, here, late, ?_⟩
  cases place : c.place <;> simp_all [Chain.choose, Place.ends?]

theorem Chain.choose_of_idle (watching : c.watch = .watching)
    (uninterrupted : c.interrupted = false) (going : ∀ reason, c.place ≠ .stopped reason)
    (idle : c.busy = false) :
    c.choose = some .worker := by
  cases place : c.place <;> simp_all [Chain.choose, Chain.busy, Place.ends?]

theorem Chain.ended_of_idle {ends : Nat} (idle : c.busy = false)
    (here : c.place.ends? = some ends) : ends ≤ c.clock := by
  simpa [Chain.busy, here] using idle

/-- A worker that has not stopped and is in no call takes a step, and then has less to do. -/
theorem Chain.exists_work {pull : Call σ Pulled} (input : line.input = some pull)
    (uninterrupted : c.interrupted = false) (going : ∀ reason, c.place ≠ .stopped reason)
    (idle : c.busy = false) : ∃ c', c.work? line = some c' ∧
      ∀ pulls, c'.work line pulls < c.work line (pulls + (c.pulls line .worker).length) := by
  have ended {ends : Nat} (here : c.place.ends? = some ends) := ended_of_idle idle here
  cases place : c.place with
  | ready =>
    refine ⟨c.call pull .pulling, ?_, fun pulls => ?_⟩
    · simp [work?, place, uninterrupted, input]
    · simp [work, call, Chain.pulls, place, input, uninterrupted, Place.todo, Nat.add_mul]
  | pulling ends o =>
    have judges : (c.afterPull line o).place.todo line < c.place.todo line := by
      cases stops : stopReason line.inputName line.exitToken o with
      | some reason =>
        rw [afterPull_of_stops stops uninterrupted, place]
        exact Nat.succ_pos _
      | none =>
        obtain ⟨v, rfl, goes⟩ := value_of_stopReason stops
        simp [afterPull, Outcome.contained, Outcome.containedIn, uninterrupted, goes, place,
          Place.todo]
    refine ⟨c.afterPull line o, ?_, fun pulls => ?_⟩
    · simp [work?, place, ended (by rw [place]; rfl)]
    · simpa [work, Chain.pulls, place] using judges
  | processing left v =>
    cases left with
    | nil =>
      exact ⟨_, by simp only [work?, place]; rfl, fun pulls => by
        simp [work, goTo, Chain.pulls, place, Place.todo]⟩
    | cons first left =>
      exact ⟨_, by simp only [work?, place]; rfl, fun pulls => by
        simp [work, call, Chain.pulls, place, Place.todo]; omega⟩
  | inProcessor ends name o left =>
    have past := ended (by rw [place]; rfl)
    cases contained : o.contained name with
    | ok v =>
      exact ⟨_, by simp only [work?, place, past, if_true, contained]; rfl, fun pulls => by
        simp [work, goTo, Chain.pulls, place, Place.todo]⟩
    | error e =>
      exact ⟨_, by simp only [work?, place, past, if_true, contained]; rfl, fun pulls => by
        simp [work, goTo, Chain.pulls, place, Place.todo]⟩
  | delivering left v =>
    cases left with
    | nil =>
      exact ⟨_, by simp only [work?, place]; rfl, fun pulls => by
        simp [work, goTo, Chain.pulls, place, Place.todo]⟩
    | cons first left =>
      exact ⟨_, by simp only [work?, place]; rfl, fun pulls => by
        simp [work, call, Chain.pulls, place, Place.todo]; omega⟩
  | inOutput ends name o left v =>
    have past := ended (by rw [place]; rfl)
    exact ⟨_, by simp only [work?, place, past, if_true]; rfl, fun pulls => by
      simp [work, goTo, Chain.pulls, place, Place.todo]⟩
  | stopped reason => exact absurd place (going reason)

/-- A chain that is watched and not interrupted takes a step by itself, and then has less to do. -/
theorem Chain.exists_next {pull : Call σ Pulled} (input : line.input = some pull)
    (watching : c.watch = .watching) (uninterrupted : c.interrupted = false) :
    ∃ s c', c.choose = some s ∧ c.step? line s = some c' ∧
      ∀ pulls, c'.todo line pulls < c.todo line (pulls + (c.pulls line s).length) := by
  by_cases stopped : ∃ reason, c.place = .stopped reason
  · obtain ⟨reason, place⟩ := stopped
    refine ⟨.join, { c with watch := .leaving reason true }, ?_, ?_, fun pulls => ?_⟩
    · simp [choose, watching, uninterrupted, place]
    · simp [step?, watching, place]
    · simp [todo, work, busy, Chain.pulls, watching]
  · have going := not_exists.mp stopped
    cases busy : c.busy with
    | true =>
      obtain ⟨ends, here, late, chosen⟩ := choose_of_busy watching uninterrupted busy
      refine ⟨_, { c with clock := c.clock + (ends - c.clock) }, chosen, rfl, fun pulls => ?_⟩
      have past : Chain.busy { c with clock := c.clock + (ends - c.clock) } = false := by
        simp [Chain.busy, here]
        omega
      simp [todo, past, busy, Chain.pulls, work]
    | false =>
      obtain ⟨c', works, less⟩ := exists_work input uninterrupted going busy
      refine ⟨.worker, c', choose_of_idle watching uninterrupted going busy, works, fun pulls => ?_⟩
      have fewer := less pulls
      have watch := watch_work? works
      have once := c'.busy.toNat_le
      simp only [todo, busy, watch, Bool.toNat_false]
      omega

end Chains

section Runs

variable {line : Line σ} {interrupted : Bool} {world : σ} {script : Nat → Outcome Pulled}
  {values : List Json} {reason : ExitReason} {pull : Call σ Pulled}

theorem Chain.run_of_leaving {c : Chain σ} {exit : ExitReason} {inTime : Bool}
    (left : c.watch = .leaving exit inTime) (fuel : Nat) : c.run line fuel = c := by
  cases fuel with
  | zero => rfl
  | succ fuel => simp [run, choose, left]

theorem ChainLog.chain_of_step? {schedule : List ChainStep} {s : ChainStep} {chain : Chain σ}
    (taken : (play line interrupted world schedule).chain.step? line s = some chain) :
    (play line interrupted world (schedule ++ [s])).chain = chain := by
  rw [play_append, List.foldl_cons, List.foldl_nil, step, taken]

/-- What a chain has pulled, it has pulled. -/
theorem ChainLog.pulled_isPrefix (schedule more : List ChainStep) :
    (play line interrupted world schedule).pulled <+:
      (play line interrupted world (schedule ++ more)).pulled := by
  induction more using List.reverseRecOn with
  | nil => simp
  | append_singleton more s ih =>
    rw [← List.append_assoc, play_append _ _ _ (schedule ++ more), List.foldl_cons, List.foldl_nil,
      step]
    split
    · exact ih
    · exact ih.trans ((List.prefix_append _ _).filterMap _)

/-- What a chain does by itself is a schedule like others. -/
theorem ChainLog.exists_play (line : Line σ) (interrupted : Bool) (world : σ)
    (schedule : List ChainStep) (fuel : Nat) :
    ∃ more, (play line interrupted world (schedule ++ more)).chain =
      (play line interrupted world schedule).chain.run line fuel := by
  induction fuel generalizing schedule with
  | zero =>
    refine ⟨[], ?_⟩
    rw [List.append_nil]
    rfl
  | succ fuel ih =>
    rw [Chain.run]
    cases next : (play line interrupted world schedule).chain.choose.bind
        ((play line interrupted world schedule).chain.step? line) with
    | none =>
      refine ⟨[], ?_⟩
      rw [List.append_nil]
    | some chain =>
      obtain ⟨s, -, taken⟩ := Option.bind_eq_some_iff.mp next
      obtain ⟨more, same⟩ := ih (schedule ++ [s])
      refine ⟨s :: more, ?_⟩
      rw [List.append_cons, same, chain_of_step? taken]

/-- A chain that no component interrupts makes as many pulls as one likes, unless it is left. -/
theorem ChainLog.pulls_or_leaves (input : line.input = some pull) (pulls : Nat)
    (schedule : List ChainStep) (todo : Nat)
    (enough : (play line false world schedule).chain.todo line
      (pulls - (play line false world schedule).pulled.length) ≤ todo)
    (calm : ∀ fuel, ((play line false world schedule).chain.run line fuel).interrupted = false) :
    ∃ steps, ∀ fuel ≥ steps, ∃ more, (play line false world (schedule ++ more)).chain =
        (play line false world schedule).chain.run line fuel ∧
      (pulls ≤ (play line false world (schedule ++ more)).pulled.length ∨
        ∃ exit, (play line false world (schedule ++ more)).chain.watch = .leaving exit true) := by
  induction todo using Nat.strongRecOn generalizing schedule with
  | ind todo ih =>
    have uninterrupted := calm 0
    by_cases far : pulls ≤ (play line false world schedule).pulled.length
    · refine ⟨0, fun fuel _ => ?_⟩
      obtain ⟨more, same⟩ := exists_play line false world schedule fuel
      exact ⟨more, same, .inl (Nat.le_trans far (pulled_isPrefix schedule more).length_le)⟩
    · obtain ⟨-, watches⟩ := judged_play input false world schedule
      cases watch : (play line false world schedule).chain.watch with
      | settling deadline =>
        rw [Chain.Watches, watch] at watches
        exact absurd (watches.symm.trans uninterrupted) (by simp)
      | leaving exit inTime =>
        rw [Chain.Watches, watch] at watches
        obtain ⟨-, rfl⟩ | ⟨cut, -⟩ := watches
        · refine ⟨0, fun fuel _ => ⟨[], ?_⟩⟩
          rw [List.append_nil, Chain.run_of_leaving watch]
          exact ⟨rfl, .inr ⟨exit, watch⟩⟩
        · exact absurd (cut.symm.trans uninterrupted) (by simp)
      | watching =>
        obtain ⟨s, chain, chosen, taken, less⟩ := Chain.exists_next input watch uninterrupted
        have next := chain_of_step? taken
        have runs (fuel : Nat) : (play line false world schedule).chain.run line (fuel + 1) =
            chain.run line fuel := by
          rw [Chain.run, chosen, Option.bind_some, taken]
        have pulled : (play line false world (schedule ++ [s])).pulled =
            (play line false world schedule).pulled ++
              (play line false world schedule).chain.pulls line s := by
          rw [ChainLog.pulled, play_append, List.foldl_cons, List.foldl_nil, step, taken,
            List.filterMap_append, (Chain.steps_of_step? taken).pull?_events]
          rfl
        have count := congrArg List.length pulled
        have once := Chain.length_pulls_le line (play line false world schedule).chain s
        have smaller : (play line false world (schedule ++ [s])).chain.todo line
            (pulls - (play line false world (schedule ++ [s])).pulled.length) < todo := by
          rw [next]
          refine Nat.lt_of_lt_of_le (less _) (Nat.le_trans (Nat.le_of_eq ?_) enough)
          rw [List.length_append] at count
          congr 1
          omega
        obtain ⟨steps, goes⟩ := ih _ smaller (schedule ++ [s]) (Nat.le_refl _) fun fuel => by
          rw [next, ← runs]
          exact calm (fuel + 1)
        refine ⟨steps + 1, fun fuel enough => ?_⟩
        obtain ⟨fuel, rfl⟩ := Nat.exists_eq_add_of_le' (Nat.le_trans (Nat.le_add_left 1 _) enough)
        obtain ⟨more, same, result⟩ := goes fuel (by omega)
        refine ⟨s :: more, ?_⟩
        rw [List.append_cons, runs, ← next]
        exact ⟨same, result⟩

/-- When its input gives values and then something that ends a run, a chain that no component
interrupts is left, for that reason. -/
theorem ChainLog.leaves_of_stopsAfter (input : line.input = some pull)
    (ends : StopsAfter line.inputName line.exitToken script values reason)
    (follows : ∀ schedule, Follows script (play line false world schedule).pulled)
    (calm : ∀ fuel, ((Chain.begin false world).run line fuel).interrupted = false) :
    ∃ steps, ∀ fuel ≥ steps, ∃ schedule,
      (play line false world schedule).chain = (Chain.begin false world).run line fuel ∧
      (play line false world schedule).Judged line values [script values.length] ∧
      (play line false world schedule).chain.watch = .leaving reason true := by
  obtain ⟨steps, goes⟩ := pulls_or_leaves input (values.length + 2) [] _ (Nat.le_refl _) calm
  refine ⟨steps, fun fuel enough => ?_⟩
  obtain ⟨schedule, runs, result⟩ := goes fuel enough
  rw [List.nil_append] at runs result
  obtain ⟨⟨others, more, judged⟩, watches⟩ := judged_play input false world schedule
  obtain far | ⟨exit, left⟩ := result
  · -- The script has ended before.
    have within := ends.isPrefix judged.received judged.place.length_le (follows schedule)
    have short := within.length_le
    simp only [StopsAfter.whole, List.length_append, List.length_map, List.length_singleton]
      at short
    omega
  · obtain ⟨o, rfl, stops⟩ | ⟨cut, -⟩ := judged.exit watches left
    · obtain ⟨rfl, pulled, rfl⟩ := ends.same judged.received (follows schedule) stops
      obtain ⟨-, same⟩ := List.append_inj' (judged.received.outcomes.symm.trans pulled) rfl
      rw [same] at judged
      exact ⟨schedule, runs, judged, left⟩
    · rw [runs] at cut
      exact absurd (cut.symm.trans (calm fuel)) (by simp)

end Runs

/-! ## Components that do not interrupt -/

/-- No component of a line interrupts a run. -/
structure Line.Calm (line : Line σ) : Prop where
  pull : ∀ call, line.input = some call → ∀ world, (call world).interrupts = false
  process : ∀ p ∈ line.processors, ∀ v world, (p.2.process v world).interrupts = false
  deliver : ∀ o ∈ line.outputs, ∀ v world, (o.2.deliver v world).interrupts = false

/-- The components that are still to be called for the value in work do not interrupt. -/
def Place.Calm : Place σ → Prop
  | .processing left _ | .inProcessor _ _ _ left =>
    ∀ p ∈ left, ∀ v world, (p.2.process v world).interrupts = false
  | .delivering left _ | .inOutput _ _ _ left _ =>
    ∀ o ∈ left, ∀ v world, (o.2.deliver v world).interrupts = false
  | _ => True

section Calm

variable {line : Line σ} {c c' : Chain σ}

theorem Place.Calm.work? (calm : line.Calm) (place : c.place.Calm)
    (works : c.work? line = some c') : c'.interrupted = c.interrupted ∧ c'.place.Calm := by
  have quiet {α : Type} {f : Call σ α} (silent : (f c.world).interrupts = false)
      {whileCalled : Nat → Outcome α → Place σ} (after : ∀ ends o, (whileCalled ends o).Calm) :
      (c.call f whileCalled).interrupted = c.interrupted ∧ (c.call f whileCalled).place.Calm := by
    simp only [Chain.call, silent, Bool.or_false, true_and]
    exact after _ _
  rw [Chain.work?] at works
  cases here : c.place with
  | ready =>
    simp only [here] at works
    split at works
    · obtain rfl := Option.some.inj works
      exact ⟨rfl, trivial⟩
    · split at works
      · obtain rfl := Option.some.inj works
        exact ⟨rfl, trivial⟩
      · rename_i pull some
        obtain rfl := Option.some.inj works
        exact quiet (calm.pull pull some _) fun _ _ => trivial
  | pulling ends o =>
    simp only [here] at works
    split at works
    · obtain rfl := Option.some.inj works
      rw [Chain.afterPull]
      split
      · exact ⟨rfl, trivial⟩
      · split
        · exact ⟨rfl, trivial⟩
        · split
          · exact ⟨rfl, trivial⟩
          · exact ⟨rfl, trivial⟩
          · exact ⟨rfl, calm.process⟩
    · cases works
  | processing left v =>
    rw [here] at place
    cases left with
    | nil =>
      simp only [here] at works
      obtain rfl := Option.some.inj works
      exact ⟨rfl, calm.deliver⟩
    | cons first left =>
      simp only [here] at works
      obtain rfl := Option.some.inj works
      exact quiet (place _ List.mem_cons_self v _) fun _ _ p hp =>
        place p (List.mem_cons_of_mem _ hp)
  | inProcessor ends name o left =>
    rw [here] at place
    simp only [here] at works
    split at works
    · split at works
      · obtain rfl := Option.some.inj works
        exact ⟨rfl, place⟩
      · obtain rfl := Option.some.inj works
        exact ⟨rfl, trivial⟩
    · cases works
  | delivering left v =>
    rw [here] at place
    cases left with
    | nil =>
      simp only [here] at works
      obtain rfl := Option.some.inj works
      exact ⟨rfl, trivial⟩
    | cons first left =>
      simp only [here] at works
      obtain rfl := Option.some.inj works
      exact quiet (place _ List.mem_cons_self v _) fun _ _ o ho =>
        place o (List.mem_cons_of_mem _ ho)
  | inOutput ends name o left v =>
    rw [here] at place
    simp only [here] at works
    split at works
    · obtain rfl := Option.some.inj works
      exact ⟨rfl, place⟩
    · cases works
  | stopped reason => simp [here] at works

theorem Chain.choose_ne_interrupt (c : Chain σ) : c.choose ≠ some .interrupt := by
  rw [choose]
  repeat' split
  all_goals simp

/-- A chain whose components do not interrupt is not interrupted by what it does itself. -/
theorem Line.Calm.uninterrupted_run (calm : line.Calm) (fresh : c.interrupted = false)
    (place : c.place.Calm) (fuel : Nat) : (c.run line fuel).interrupted = false := by
  induction fuel generalizing c with
  | zero => exact fresh
  | succ fuel ih =>
    rw [Chain.run]
    cases next : c.choose.bind (c.step? line) with
    | none => exact fresh
    | some c' =>
      obtain ⟨s, chosen, taken⟩ := Option.bind_eq_some_iff.mp next
      have kept : c'.interrupted = c.interrupted ∧ c'.place.Calm := by
        cases s with
        | worker => exact place.work? calm taken
        | interrupt => exact absurd chosen c.choose_ne_interrupt
        | notice | join | giveUp | wait =>
          -- The main task looks on, and time passes.
          rw [Chain.step?] at taken
          repeat' split at taken
          all_goals cases taken
          all_goals exact ⟨rfl, place⟩
      exact ih (kept.1.trans fresh) kept.2

end Calm

end Pipeworks
