import Pipeworks.Config.Environment
import Pipeworks.Fault

/-!
# Declarations and their names

A declaration gives a name to a component of some kind and type and holds the
block that configures it. Its name must not be a boolean literal in any case of
letters, and no two declarations of a document share a name.
-/

namespace Pipeworks.Config

/-- A declaration. -/
structure Declaration where
  name : String
  kind : String
  type : String
  block : Block
  line : Nat
  deriving Inhabited

namespace Declaration

/-- The names a declaration refers to, each once, in the order of first mention. -/
def references (d : Declaration) : List String :=
  d.block.references.eraseDups

theorem mem_references {d : Declaration} {r : String} :
    r ∈ d.references ↔ r ∈ Value.entryReferencesRec d.block := by
  rw [references, List.mem_eraseDups, Block.references_eq]

/-- A declaration with the variables of its block replaced. -/
def resolve (env : Environment) (d : Declaration) : Declaration :=
  { d with block := d.block.resolve env }

/-- The declaration as JSON. -/
def toJson (d : Declaration) : Json :=
  .object [("variable", .string d.name), ("component", .string d.kind),
    ("type", .string d.type), ("config", d.block.toJson)]

end Declaration

/-- Whether a name is a boolean literal in some case of letters. -/
def isReserved (name : String) : Bool :=
  Text.sameLetters name "true" || Text.sameLetters name "false"

/-- Add a name to those declared so far, the latest first. -/
def declare (declared : List String) (name : String) : Except Fault (List String) :=
  if isReserved name then .error (.forbiddenName name .reserved)
  else if declared.contains name then .error (.forbiddenName name .duplicate)
  else .ok (name :: declared)

end Pipeworks.Config
