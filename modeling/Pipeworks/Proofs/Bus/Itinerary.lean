import Pipeworks.Proofs.Bus.Ledger

/-!
# The itinerary of a delivery

What a history tells about one delivery, if every delivery is begun at most once:
nothing, or that it is under way at one spot after as many attempts as the spot
says, or that it ended from such a spot and has never been heard of again. One
note takes a delivery from one of these courses to another.
-/

namespace Pipeworks

variable {p : Policy} {k : Parcel} {h ns : List Note} {a b rest : List (Parcel × Spot)}

namespace Spot

/-- The attempts that were begun at a delivery in this spot. -/
def begun : Spot → Nat
  | waiting attempt => attempt - 1
  | handled attempt => attempt
  | pending attempts => attempts

/-- The attempts that a policy allows in this spot. -/
def Allowed (p : Policy) : Spot → Prop
  | waiting attempt | handled attempt => 1 ≤ attempt ∧ attempt ≤ p.maxAttempts
  | pending attempts => 1 ≤ attempts ∧ attempts < p.maxAttempts

theorem begun_le {s : Spot} (allowed : s.Allowed p) : s.begun ≤ p.maxAttempts := by
  cases s <;> simp only [begun, Allowed] at allowed ⊢ <;> omega

end Spot

/-- The spots in which a delivery is found. -/
def spots (k : Parcel) (a : List (Parcel × Spot)) : List Spot :=
  a.filterMap fun e => if e.1 = k then some e.2 else none

theorem spots_perm (same : a.Perm b) : (spots k a).Perm (spots k b) :=
  same.filterMap _

theorem spots_of_ne {e : Option (Parcel × Spot)} (other : ∀ s, e ≠ some (k, s)) :
    spots k (e.toList ++ rest) = spots k rest := by
  cases e with
  | none => rfl
  | some e =>
    have hk : e.1 ≠ k := fun hk => other e.2 (by rw [← hk])
    simp [spots, hk]

theorem spots_some {s : Spot} :
    spots k (Option.toList (some (k, s)) ++ rest) = s :: spots k rest := by
  simp [spots]

/-- A delivery is under way: its attempts were numbered from 1, as many as its spot
says, and nothing has ended it. -/
structure UnderWay (p : Policy) (k : Parcel) (h : List Note) (s : Spot) : Prop where
  numbered : attempts k h = List.range' 1 s.begun
  allowed : s.Allowed p
  unended : ∀ n ∈ h, n.ended ≠ some k

/-- A delivery has ended from a spot, and no later note is about it. -/
structure Concluded (p : Policy) (k : Parcel) (h : List Note) (before : List Note) (n : Note)
    (after : List Note) (s : Spot) : Prop where
  split : h = before ++ n :: after
  underWay : UnderWay p k before s
  leaves : n.departure = some (k, s)
  ends : n.ended = some k
  lawful : n.Lawful p
  silent : ∀ m ∈ after, m.parcel ≠ some k

/-- The course of a delivery. -/
inductive Course (p : Policy) (k : Parcel) (h : List Note) (a : List (Parcel × Spot)) : Prop where
  | unopened (nowhere : spots k a = []) (silent : ∀ n ∈ h, n.parcel ≠ some k)
  | underWay (s : Spot) (here : spots k a = [s]) (known : k ∈ opened h)
      (course : UnderWay p k h s)
  | concluded (before : List Note) (n : Note) (after : List Note) (s : Spot)
      (nowhere : spots k a = []) (known : k ∈ opened h)
      (course : Concluded p k h before n after s)

theorem attempts_append (k : Parcel) (h ns : List Note) :
    attempts k (h ++ ns) = attempts k h ++ attempts k ns :=
  List.filterMap_append

theorem opened_append (h ns : List Note) : opened (h ++ ns) = opened h ++ opened ns :=
  List.filterMap_append

theorem attempts_of_silent (silent : ∀ n ∈ h, n.parcel ≠ some k) : attempts k h = [] := by
  rw [attempts, List.filterMap_eq_nil_iff]
  intro n hn
  cases ha : n.attempt k with
  | none => rfl
  | some a => exact absurd (Note.parcel_of_attempt ha) (silent n hn)

theorem Note.parcel_of_ended {n : Note} (h : n.ended = some k) : n.parcel = some k := by
  cases n <;> simp_all [ended, Note.succeeded, letter, Note.gone, parcel, departure]

namespace UnderWay

theorem other {s : Spot} {n : Note} (u : UnderWay p k h s) (other : n.parcel ≠ some k) :
    UnderWay p k (h ++ [n]) s where
  numbered := by
    rw [attempts_append, attempts_of_silent (h := [n]) (by simpa using other), List.append_nil]
    exact u.numbered
  allowed := u.allowed
  unended := by
    refine List.forall_mem_append.mpr ⟨u.unended, List.forall_mem_singleton.mpr ?_⟩
    intro he
    exact other (Note.parcel_of_ended he)

/-- A note that moves the delivery takes it to a spot that counts its attempts. -/
theorem moved {s t : Spot} {n : Note} (u : UnderWay p k h s) (lawful : n.Lawful p)
    (leaves : n.departure = some (k, s)) (comes : n.arrival = some (k, t)) :
    UnderWay p k (h ++ [n]) t := by
  obtain ⟨made, allowed, still⟩ := u
  have live : ∀ m ∈ h ++ [n], m.ended ≠ some k := by
    refine List.forall_mem_append.mpr ⟨still, List.forall_mem_singleton.mpr ?_⟩
    cases n <;> simp_all [Note.arrival, Note.departure, Note.ended, Note.succeeded, Note.letter,
      Note.gone]
  cases n with
  | begun name d =>
    simp only [Note.departure, Note.arrival, Option.some.injEq, Prod.mk.injEq] at leaves comes
    obtain ⟨hk, rfl⟩ := leaves
    obtain ⟨-, rfl⟩ := comes
    refine ⟨?_, allowed, live⟩
    obtain ⟨low, -⟩ := allowed
    have next : d.attempt = (d.attempt - 1) + 1 := by omega
    simp only [Spot.begun] at made ⊢
    rw [attempts_append, made, next, List.range'_1_concat]
    simp only [attempts, Note.attempt, hk, List.filterMap_cons, List.filterMap_nil, if_true]
    congr 2
    omega
  | postponed r =>
    simp only [Note.departure, Note.arrival, Option.some.injEq, Prod.mk.injEq] at leaves comes
    obtain ⟨-, rfl⟩ := leaves
    obtain ⟨-, rfl⟩ := comes
    refine ⟨?_, ⟨allowed.1, lawful⟩, live⟩
    rw [attempts_append, made]
    exact List.append_nil _
  | requeued r =>
    simp only [Note.departure, Note.arrival, Option.some.injEq, Prod.mk.injEq] at leaves comes
    obtain ⟨-, rfl⟩ := leaves
    obtain ⟨-, rfl⟩ := comes
    refine ⟨?_, ⟨by omega, allowed.2⟩, live⟩
    rw [attempts_append, made]
    exact List.append_nil _
  | _ => simp [Note.departure, Note.arrival] at leaves comes

end UnderWay

namespace Course

theorem perm (c : Course p k h a) (same : a.Perm b) : Course p k h b := by
  have hs := spots_perm (k := k) same
  cases c with
  | unopened nowhere silent =>
    rw [nowhere] at hs
    exact .unopened hs.nil_eq.symm silent
  | underWay s here known course =>
    rw [here] at hs
    exact .underWay s (List.singleton_perm.mp hs).symm known course
  | concluded before n after s nowhere known course =>
    rw [nowhere] at hs
    exact .concluded before n after s hs.nil_eq.symm known course

theorem other {n : Note} (c : Course p k h (n.departure.toList ++ rest))
    (other : n.parcel ≠ some k) : Course p k (h ++ [n]) (n.arrival.toList ++ rest) := by
  have gone : spots k (n.departure.toList ++ rest) = spots k rest :=
    spots_of_ne fun s hs => other (Note.parcel_of_departure hs)
  have come : spots k (n.arrival.toList ++ rest) = spots k rest :=
    spots_of_ne fun s hs => other (Note.parcel_of_arrival hs)
  have grown : ∀ {k}, k ∈ opened h → k ∈ opened (h ++ [n]) := fun hk => by
    rw [opened_append]
    exact List.mem_append_left _ hk
  cases c with
  | unopened nowhere silent =>
    exact .unopened (by rw [come, ← gone, nowhere])
      (List.forall_mem_append.mpr ⟨silent, List.forall_mem_singleton.mpr other⟩)
  | underWay s here known course =>
    exact .underWay s (by rw [come, ← gone, here]) (grown known) (course.other other)
  | concluded before m after s nowhere known course =>
    refine .concluded before m (after ++ [n]) s (by rw [come, ← gone, nowhere]) (grown known) ?_
    exact { course with
      split := by rw [course.split]; simp
      silent := List.forall_mem_append.mpr ⟨course.silent, List.forall_mem_singleton.mpr other⟩ }

/-- A note that begins a delivery nobody has heard of. -/
theorem begin {n : Note} (c : Course p k h rest) (positive : 1 ≤ p.maxAttempts)
    (lawful : n.Lawful p) (opens : n.opened = some k) (fresh : (opened (h ++ [n])).Nodup) :
    Course p k (h ++ [n]) (n.arrival.toList ++ rest) := by
  have unknown : k ∉ opened h := by
    intro hk
    rw [opened_append] at fresh
    have hn : k ∈ opened [n] := by simp [opened, opens]
    exact (List.nodup_append.mp fresh).2.2 k hk k hn rfl
  have known : k ∈ opened (h ++ [n]) := by simp [opened, opens]
  cases c with
  | unopened nowhere silent =>
    cases n with
    | queued name d =>
      simp only [Note.opened, Option.some.injEq] at opens
      simp only [Note.Lawful] at lawful
      refine .underWay (.waiting 1) ?_ known ⟨?_, ⟨by omega, positive⟩, ?_⟩
      · rw [Note.arrival, opens, lawful, spots_some, nowhere]
      · rw [attempts_append, attempts_of_silent silent]
        rfl
      · refine List.forall_mem_append.mpr ⟨?_, List.forall_mem_singleton.mpr ?_⟩
        · intro m hm he
          exact silent m hm (Note.parcel_of_ended he)
        · simp [Note.ended, Note.succeeded, Note.letter, Note.gone]
    | _ => simp [Note.opened] at opens
  | underWay s here hk course => exact absurd hk unknown
  | concluded before m after s nowhere hk course => exact absurd hk unknown

/-- A note that moves or ends a delivery finds it at the spot that the note says. -/
theorem depart {n : Note} {s : Spot} (c : Course p k h (n.departure.toList ++ rest))
    (lawful : n.Lawful p) (leaves : n.departure = some (k, s)) :
    Course p k (h ++ [n]) (n.arrival.toList ++ rest) := by
  rw [leaves] at c
  cases c with
  | unopened nowhere silent => rw [spots_some] at nowhere; simp at nowhere
  | concluded before m after t nowhere known course => rw [spots_some] at nowhere; simp at nowhere
  | underWay t here known course =>
    rw [spots_some] at here
    obtain ⟨rfl, nowhere⟩ := List.cons.inj here
    have grown : k ∈ opened (h ++ [n]) := by
      rw [opened_append]
      exact List.mem_append_left _ known
    cases comes : n.arrival with
    | none =>
      have ends : n.ended = some k := by
        cases n <;> simp_all [Note.arrival, Note.departure, Note.ended, Note.succeeded,
          Note.letter, Note.gone]
      exact .concluded h n [] s nowhere grown
        ⟨rfl, course, leaves, ends, lawful, by simp⟩
    | some e =>
      obtain ⟨k', t⟩ := e
      have hk : k' = k := by
        have h1 := Note.parcel_of_arrival comes
        have h2 := Note.parcel_of_departure leaves
        exact Option.some.inj (h1.symm.trans h2)
      subst hk
      exact .underWay t (by rw [spots_some, nowhere]) grown (course.moved lawful leaves comes)

theorem note {n : Note} (c : Course p k h a) (positive : 1 ≤ p.maxAttempts)
    (lawful : n.Lawful p) (leaves : a.Perm (n.departure.toList ++ rest))
    (fresh : (opened (h ++ [n])).Nodup) :
    Course p k (h ++ [n]) (n.arrival.toList ++ rest) := by
  have c := c.perm leaves
  by_cases about : n.parcel = some k
  · rcases Note.opened_or_departure about with opens | ⟨s, leaves⟩
    · have stays : n.departure = none := by cases n <;> simp_all [Note.opened, Note.departure]
      rw [stays] at c
      exact c.begin positive lawful opens fresh
    · exact c.depart lawful leaves
  · exact c.other about

theorem posts (posts : Posts p a ns b) (c : Course p k h a) (positive : 1 ≤ p.maxAttempts)
    (fresh : (opened (h ++ ns)).Nodup) : Course p k (h ++ ns) b := by
  induction posts generalizing h with
  | none same =>
    rw [List.append_nil]
    exact c.perm same
  | @note a b rest n ns lawful leaves _ ih =>
    have split : h ++ n :: ns = (h ++ [n]) ++ ns := by simp
    rw [split] at fresh ⊢
    refine ih (c.note positive lawful leaves ?_) fresh
    rw [opened_append] at fresh
    exact (List.nodup_append.mp fresh).1

end Course

/-- Every delivery of a history that begins each one at most once has its course. -/
theorem Posts.course (posts : Posts p [] h a) (positive : 1 ≤ p.maxAttempts)
    (fresh : (opened h).Nodup) (k : Parcel) : Course p k h a := by
  have start : Course p k [] [] := .unopened rfl (by simp)
  simpa using start.posts posts positive (by simpa using fresh)

end Pipeworks
