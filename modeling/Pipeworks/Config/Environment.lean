import Pipeworks.Config.Walk

/-!
# Environment variables

A variable in a configuration is replaced by its value as a text, or by the
absent value where it is not set. Nothing else in the tree changes, and a value
taken from the environment is not looked into again.
-/

namespace Pipeworks.Config

/-- The values of the variables that are set. -/
abbrev Environment := String → Option String

namespace Environment

/-- The environment that sets the given variables; the last setting counts. -/
def ofList (pairs : List (String × String)) : Environment :=
  fun name => (pairs.reverse).lookup name

/-- What stands for a leaf in this environment. -/
def fill (env : Environment) : Value → Value
  | .variable name =>
    match env name with
    | some s => .text s
    | none => .absent
  | v => v

end Environment

/-- A value with its variables replaced. -/
def Value.resolve (env : Environment) (v : Value) : Value :=
  v.mapLeaves env.fill

/-- A block with its variables replaced. -/
def Block.resolve (env : Environment) (b : Block) : Block :=
  b.mapLeaves env.fill

end Pipeworks.Config
