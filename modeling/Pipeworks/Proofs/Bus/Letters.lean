import Pipeworks.Proofs.Bus.Conservation

/-!
# The latest dead letters

A bus keeps the dead letters that it has room for. The oldest makes room for a new one, so what is
kept is always the end of all that was recorded, by dispatchers that give a delivery up and by
sweeps. Recording a letter counts it first and then keeps it. Recorders may come between these two
steps of each other, and the end that is kept is still that of the letters in the order of keeping.
-/

namespace Pipeworks

variable {σ : Type}

/-- The end of a list that there is room for. -/
def latest {α : Type} (room : Nat) (xs : List α) : List α :=
  xs.drop (xs.length - room)

theorem length_latest {α : Type} (room : Nat) (xs : List α) :
    (latest room xs).length = min xs.length room := by
  rw [latest, List.length_drop]
  omega

/-- The room for dead letters. -/
def Policy.letterRoom (p : Policy) : Nat := max p.deadLetterCapacity 1

/-- Keeping one more letter drops the oldest if all the room is taken. -/
theorem keep_latest (p : Policy) (ls : List DeadLetter) (l : DeadLetter) :
    Bus.keep p (latest p.letterRoom ls) l = latest p.letterRoom (ls ++ [l]) := by
  have positive : 1 ≤ p.letterRoom := Nat.le_max_right ..
  rw [Bus.keep, length_latest, ← Policy.letterRoom, latest, latest, List.length_append,
    List.length_singleton]
  by_cases full : p.letterRoom ≤ ls.length
  · have next : ls.length + 1 - p.letterRoom = ls.length - p.letterRoom + 1 := by omega
    rw [if_pos (by omega), List.tail_drop, next, List.drop_append_of_le_length (by omega)]
  · have all : ls.length - p.letterRoom = 0 := by omega
    have still : ls.length + 1 - p.letterRoom = 0 := by omega
    rw [if_neg (by omega), all, still, List.drop_zero, List.drop_zero]

/-- However many letters are kept, they are the latest. -/
theorem foldl_keep_latest (p : Policy) (before ls : List DeadLetter) :
    ls.foldl (Bus.keep p) (latest p.letterRoom before) = latest p.letterRoom (before ++ ls) := by
  induction ls generalizing before with
  | nil => rw [List.foldl_nil, List.append_nil]
  | cons l ls ih => rw [List.foldl_cons, keep_latest, ih, List.append_assoc, List.singleton_append]

/-! ## Recorders -/

/-- A step of recording a letter. -/
inductive Recording where
  | count
  | keep (l : DeadLetter)

/-- The letter that a step keeps. -/
def Recording.letter? : Recording → Option DeadLetter
  | .count => none
  | .keep l => some l

def Recording.isCount : Recording → Bool
  | .count => true
  | .keep _ => false

namespace Bus

/-- A bus after a step of a recorder. -/
def record (b : Bus) : Recording → Bus
  | .count => { b with stats := { b.stats with deadLettered := b.stats.deadLettered + 1 } }
  | .keep l => { b with deadLetters := Bus.keep b.policy b.deadLetters l }

/-- A recorder that nobody disturbs. -/
theorem bury_eq_record (b : Bus) (l : DeadLetter) :
    b.bury l = [Recording.count, .keep l].foldl record b := rfl

/-- Steps of recorders, in any order, keep the letters in the order of keeping and count. -/
theorem foldl_record (b : Bus) (steps : List Recording) :
    (steps.foldl record b).deadLetters =
        (steps.filterMap Recording.letter?).foldl (Bus.keep b.policy) b.deadLetters ∧
      (steps.foldl record b).stats.deadLettered =
        b.stats.deadLettered + steps.countP Recording.isCount := by
  induction steps generalizing b with
  | nil => exact ⟨rfl, rfl⟩
  | cons step steps ih =>
    obtain ⟨kept, counted⟩ := ih (b.record step)
    rw [List.foldl_cons]
    cases step with
    | count =>
      refine ⟨kept, counted.trans ?_⟩
      rw [List.countP_cons_of_pos rfl]
      simp only [record]
      omega
    | keep l =>
      refine ⟨kept, counted.trans ?_⟩
      rw [List.countP_cons_of_neg (by simp [Recording.isCount])]
      rfl

end Bus

/-! ## Runs -/

namespace Audit

/-- After any schedule a bus has counted all letters that dispatchers and sweeps recorded, and keeps
the latest of them, the oldest first, as many as there is room for. So it does when recorders come
between each other's steps after that: the counter may then be ahead of the letters that are kept
by those recorders that have not kept theirs. -/
theorem latest_letters_kept (policy : Policy) (world : σ) (acts : List (Act σ)) :
    let s := play policy world acts
    let recorded := letters s.history
    s.bus.deadLetters = latest policy.letterRoom recorded ∧
    s.bus.deadLetters.length = min recorded.length (max policy.deadLetterCapacity 1) ∧
    s.bus.stats.deadLettered = recorded.length ∧
    ∀ steps : List Recording,
      (steps.foldl Bus.record s.bus).deadLetters =
        latest policy.letterRoom (recorded ++ steps.filterMap Recording.letter?) ∧
      (steps.foldl Bus.record s.bus).stats.deadLettered =
        recorded.length + steps.countP Recording.isCount := by
  intro s recorded
  have sound : s.Sound policy := sound_play policy world acts
  have kept : s.bus.deadLetters = latest policy.letterRoom recorded := by
    have none : latest policy.letterRoom ([] : List DeadLetter) = [] := List.drop_nil
    rw [← List.nil_append recorded, ← foldl_keep_latest, none]
    exact sound.letters
  have counted : s.bus.stats.deadLettered = recorded.length := by
    rw [sound.stats, Stats.deadLettered_foldl]
    exact Nat.zero_add _
  refine ⟨kept, ?_, counted, fun steps => ?_⟩
  · rw [kept, length_latest]
    rfl
  · obtain ⟨more, count⟩ := s.bus.foldl_record steps
    have same : s.bus.policy = policy := sound.policy
    rw [more, count, same, kept, counted, foldl_keep_latest]
    exact ⟨rfl, rfl⟩

end Audit

end Pipeworks
