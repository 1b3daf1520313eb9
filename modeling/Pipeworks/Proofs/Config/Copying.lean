import Mathlib.Logic.Relation
import Pipeworks.Config.Walk

/-!
# A copy is equal to what was copied

While a block is copied, each container on the stack but the innermost has handed out a child and
waits for its copy; a block keeps the key of that child. What carries the argument is that the
copies in a container, the child it waits for and the children left to visit are together the
container as it was. So no copy is dropped, and the last container to be finished is the whole block.
-/

namespace Pipeworks.Config

namespace Copying

/-- A container as it was: the copies made and the children left to visit. -/
def whole : Copying → Value
  | .block left _ made => .block (made.reverse ++ left)
  | .items left made => .items (made.reverse ++ left)

/-- A container that can take the copy of a child. -/
def IsWaiting : Copying → Prop
  | .block _ key? _ => key?.isSome
  | .items _ _ => True

/-- The containers on the stack are those around `v` in `w`, and wait for the copy of `v`. -/
inductive Around : List Copying → Value → Value → Prop where
  | nothing (v : Value) : Around [] v v
  | block {left k made stack v w}
      (outside : Around stack (.block (made.reverse ++ (k, v) :: left)) w) :
      Around (.block left (some k) made :: stack) v w
  | items {left made stack v w} (outside : Around stack (.items (made.reverse ++ v :: left)) w) :
      Around (.items left made :: stack) v w

/-- A stack on the way to a copy of `b`. -/
inductive Copies (b : Block) : List Copying → Prop where
  | inside {top stack} (around : Around stack top.whole (.block b)) : Copies b (top :: stack)

/-- One stack is followed by another in a turn. -/
def Follows (stack stack' : List Copying) : Prop :=
  turn stack = .goesOn stack'

/-! ## One turn -/

variable {b : Block} {c top parent : Copying} {stack stack' : List Copying} {v w : Value}

theorem Around.waiting (around : Around stack v w) : ∀ c ∈ stack, c.IsWaiting := by
  induction around with
  | nothing v => simp
  | block outside ih => exact List.forall_mem_cons.mpr ⟨rfl, ih⟩
  | items outside ih => exact List.forall_mem_cons.mpr ⟨trivial, ih⟩

/-- A container that hands out a child waits for its copy. -/
theorem Around.next (around : Around stack top.whole w) (next : top.next? = some (v, c)) :
    Around (c :: stack) v w := by
  cases top with
  | block left key? made =>
    cases left with
    | nil => simp [next?] at next
    | cons e left =>
      obtain ⟨rfl, rfl⟩ := Prod.mk.inj (Option.some.inj next)
      exact .block around
  | items left made =>
    cases left with
    | nil => simp [next?] at next
    | cons v left =>
      obtain ⟨rfl, rfl⟩ := Prod.mk.inj (Option.some.inj next)
      exact .items around

/-- A container that is given the copy it waits for has lost nothing. -/
theorem Around.attach (around : Around (parent :: stack) v w) :
    Around stack (parent.attach v).whole w := by
  cases around with
  | block outside => simpa [Copying.attach, whole] using outside
  | items outside => simpa [Copying.attach, whole] using outside

/-- A container with no child left is copied as a whole. -/
theorem finish_eq_whole (last : top.next? = none) : top.finish = top.whole := by
  cases top with
  | block left key? made =>
    cases left with
    | nil => simp [finish, whole]
    | cons e left => simp [next?] at last
  | items left made =>
    cases left with
    | nil => simp [finish, whole]
    | cons v left => simp [next?] at last

/-- A turn leads to another stack on the way, or makes the copy. -/
theorem Copies.step (copies : Copies b stack) :
    (∃ stack', Follows stack stack' ∧ Copies b stack') ∨ turn stack = .made b := by
  obtain @⟨top, around, inside⟩ := copies
  unfold Follows
  cases next : top.next? with
  | some visit =>
    obtain ⟨child, top'⟩ := visit
    have below := inside.next next
    refine .inl ?_
    cases child with
    | block entries =>
      exact ⟨.ofBlock entries :: top' :: around, by simp only [turn, next], .inside below⟩
    | items values =>
      exact ⟨.ofItems values :: top' :: around, by simp only [turn, next], .inside below⟩
    | _ => exact ⟨_, by simp only [turn, next], .inside below.attach⟩
  | none =>
    rw [← finish_eq_whole next] at inside
    cases around with
    | nil =>
      generalize made : top.finish = v at inside
      cases inside
      exact .inr (by simp only [turn, next, made])
    | cons parent around =>
      exact .inl ⟨_, by simp only [turn, next], .inside inside.attach⟩

/-! ## The whole copy -/

theorem copies_ofBlock (b : Block) : Copies b [ofBlock b] :=
  .inside (.nothing _)

/-- Whatever turns are taken, the stack stays on the way. -/
theorem Copies.reached (copies : Copies b stack)
    (reached : Relation.ReflTransGen Follows stack stack') : Copies b stack' := by
  induction reached with
  | refl => exact copies
  | tail _ follows ih =>
    obtain ⟨next, follows', copies⟩ | made := ih.step
    · obtain rfl := Turn.goesOn.inj (follows.symm.trans follows')
      exact copies
    · exact absurd (follows.symm.trans made) (by simp)

/-- The turns come to an end, with the copy. -/
theorem Copies.ends (copies : Copies b stack) : run stack = some b ∧
    ∃ last, Relation.ReflTransGen Follows stack last ∧ turn last = .made b := by
  fun_induction run stack with
  | case1 stack stack' turned ih =>
    obtain ⟨next, follows, copies⟩ | made := copies.step
    · obtain rfl := Turn.goesOn.inj (turned.symm.trans follows)
      obtain ⟨result, last, reached, made⟩ := ih copies
      exact ⟨result, last, .head turned reached, made⟩
    · exact absurd (turned.symm.trans made) (by simp)
  | case2 stack b' turned =>
    obtain ⟨next, follows, -⟩ | made := copies.step
    · exact absurd (turned.symm.trans follows) (by simp)
    · obtain rfl := Turn.made.inj (turned.symm.trans made)
      exact ⟨rfl, stack, .refl, made⟩
  | case3 stack turned =>
    obtain ⟨next, follows, -⟩ | made := copies.step
    · exact absurd (turned.symm.trans follows) (by simp)
    · exact absurd (turned.symm.trans made) (by simp)

end Copying

theorem Block.copy_eq (b : Block) : b.copy = b := by
  rw [copy, (Copying.copies_ofBlock b).ends.1, Option.getD_some]

/-- The copy of a block is the block. Its turns end with that copy, and on no stack on the way does
the copy go astray or a container get the copy of a child without a place for it. So the empty block
that stands for a copy gone astray is the copy of the empty block only. -/
theorem copy_faithful (b : Block) : b.copy = b ∧ Copying.run [.ofBlock b] = some b ∧
    (∃ last, Relation.ReflTransGen Copying.Follows [.ofBlock b] last ∧
      Copying.turn last = .made b) ∧
    ∀ stack, Relation.ReflTransGen Copying.Follows [.ofBlock b] stack →
      Copying.turn stack ≠ .astray ∧ ∀ c ∈ stack.tail, c.IsWaiting := by
  obtain ⟨result, ends⟩ := (Copying.copies_ofBlock b).ends
  refine ⟨b.copy_eq, result, ends, fun stack reached => ?_⟩
  have copies := (Copying.copies_ofBlock b).reached reached
  constructor
  · obtain ⟨next, follows, -⟩ | made := copies.step
    · exact fun astray => by cases follows.symm.trans astray
    · exact fun astray => by cases made.symm.trans astray
  · obtain ⟨around⟩ := copies
    exact around.waiting

end Pipeworks.Config
