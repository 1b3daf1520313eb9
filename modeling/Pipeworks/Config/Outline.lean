import Pipeworks.Config.Declaration

/-!
# The outline of a block

How large a block is, how deeply it is nested, and which leaves stand first in
it. The walk keeps its pending values in a list, so depth does not matter.
-/

namespace Pipeworks.Config

/-- What is known of the values seen so far. -/
structure Outline where
  nodes : Nat
  depth : Nat
  /-- The leaves seen so far, the latest first. -/
  leaves : List Value

/-- Whether a value is no container. -/
def Value.isLeaf : Value → Bool
  | .block _ | .items _ => false
  | _ => true

/-- Values that stand on one level. -/
def onLevel (level : Nat) (values : List Value) : List (Nat × Value) :=
  values.map (level, ·)

theorem map_snd_onLevel (level : Nat) (values : List Value) :
    (onLevel level values).map (·.2) = values := by
  simp only [onLevel, List.map_map, Function.comp_def]
  exact List.map_id values

/-- The outline of pending values, each with its level. -/
def Outline.add (o : Outline) : List (Nat × Value) → Outline
  | [] => o
  | (level, v) :: rest =>
    let o := { o with nodes := o.nodes + 1, depth := max o.depth level }
    match v with
    | .block entries => o.add (onLevel (level + 1) (Block.values entries) ++ rest)
    | .items values => o.add (onLevel (level + 1) values ++ rest)
    | v => { o with leaves := v :: o.leaves }.add rest
termination_by pending => Value.weightItems (pending.map (·.2))
decreasing_by
  · simp only [List.map_append, map_snd_onLevel, Value.weightItems_append, List.map_cons,
      Value.weightItems, Value.weight, Block.weightItems_values]
    omega
  · simp only [List.map_append, map_snd_onLevel, Value.weightItems_append, List.map_cons,
      Value.weightItems, Value.weight]
    omega
  · have := Value.weight_pos v
    simp only [List.map_cons, Value.weightItems]
    omega

/-- The outline of a block, whose own values are on level one. -/
def Block.outline (b : Block) : Outline :=
  let o := Outline.add ⟨0, 0, []⟩ (onLevel 1 b.values)
  { o with leaves := o.leaves.reverse }

end Pipeworks.Config
