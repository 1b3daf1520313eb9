import Pipeworks.Config.Walk

/-!
# Walks and recursions

The walk that rebuilds a tree keeps its open containers on a stack. `plug` closes all of
them around a value, by recursion on the stack; the walk into a value is the recursion over
that value followed by `plug`, so the walk over a whole tree is the recursion alone.
-/

namespace Pipeworks.Config

namespace Value

variable {f : Value → Value}

/-- Close all open containers around a value that has been rebuilt. -/
def plug (f : Value → Value) (v : Value) : List Frame → Value
  | [] => v
  | .block done key left :: stack =>
    plug f (.block (done.reverse ++ (key, v) :: mapEntriesRec f left)) stack
  | .items done left :: stack => plug f (.items (done.reverse ++ v :: mapItemsRec f left)) stack

/-- What is no container is a leaf of the recursion. -/
theorem mapLeavesRec_leaf {v : Value} (noBlock : ∀ entries, v ≠ .block entries)
    (noItems : ∀ values, v ≠ .items values) : mapLeavesRec f v = f v := by
  cases v with
  | block entries => exact absurd rfl (noBlock entries)
  | items values => exact absurd rfl (noItems values)
  | _ => rfl

/-- The walk, from a value inwards and from a rebuilt value outwards. -/
theorem enter_eq (f : Value → Value) (v : Value) (stack : List Frame) :
    enter f v stack = plug f (mapLeavesRec f v) stack := by
  refine enter.induct f (fun v stack => enter f v stack = plug f (mapLeavesRec f v) stack)
    (fun v stack => leave f v stack = plug f v stack) ?emptyBlock ?block ?emptyItems ?items ?leaf
    ?whole ?lastEntry ?entry ?lastItem ?item v stack
  case emptyBlock =>
    intro stack ih
    rw [enter, ih, mapLeavesRec, mapEntriesRec]
  case block =>
    intro stack k v rest ih
    rw [enter, ih, plug, mapLeavesRec, mapEntriesRec]
    rfl
  case emptyItems =>
    intro stack ih
    rw [enter, ih, mapLeavesRec, mapItemsRec]
  case items =>
    intro stack v rest ih
    rw [enter, ih, plug, mapLeavesRec, mapItemsRec]
    rfl
  case leaf =>
    intro stack leaf noNil noCons noEmpty noItems ih
    have plain : mapLeavesRec f leaf = f leaf := by
      apply mapLeavesRec_leaf
      · rintro (_ | ⟨⟨k, v⟩, rest⟩)
        · exact noNil
        · exact noCons k v rest
      · rintro (_ | ⟨v, rest⟩)
        · exact noEmpty
        · exact noItems v rest
    rw [enter, ih, plain] <;> assumption
  case whole =>
    intro v
    rw [leave, plug]
  case lastEntry =>
    intro v done key stack ih
    rw [leave, ih, plug, mapEntriesRec, List.reverse_cons]
  case entry =>
    intro v done key k w left stack ih
    rw [leave, ih, plug, plug, mapEntriesRec, List.reverse_cons, List.append_assoc]
    rfl
  case lastItem =>
    intro v done stack ih
    rw [leave, ih, plug, mapItemsRec, List.reverse_cons]
  case item =>
    intro v done w left stack ih
    rw [leave, ih, plug, plug, mapItemsRec, List.reverse_cons, List.append_assoc]
    rfl

/-- Rebuilding a tree with a stack is rebuilding it by recursion. -/
theorem mapLeaves_eq (f : Value → Value) (v : Value) : mapLeaves f v = mapLeavesRec f v := by
  rw [mapLeaves, enter_eq, plug]

end Value

theorem Block.mapLeaves_eq (f : Value → Value) (b : Block) :
    b.mapLeaves f = Value.mapEntriesRec f b := by
  rw [Block.mapLeaves, Value.mapLeaves_eq, Value.mapLeavesRec]

end Pipeworks.Config
