import Pipeworks.Command.Style
import Pipeworks.Component.Registry
import Pipeworks.Settings.RunSettings

/-!
# Plans

A plan shows how a document would be brought up: its components in an order in
which each follows those it refers to, whether a constructor is known for each,
and the settings of the run.
-/

namespace Pipeworks.Command

open Config

/-- The width of the line under the heading. -/
def headingWidth : Nat := 35

variable {σ : Type}

/-- The lines about a component. -/
def componentLines (registry : Registry σ) (g : Graph) (d : Declaration) : List String :=
  let known :=
    if registry.contains d.kind d.type then Style.green.apply "builtin"
    else Style.yellow.apply "no factory"
  let first := "  + " ++ Style.bold.apply d.name ++ " " ++ Style.dim.apply (d.kind ++ " " ++ d.type)
    ++ " [" ++ known ++ "]"
  match g.dependencies d.name with
  | [] => [first]
  | names => [first, "      after: " ++ ", ".intercalate names]

/-- The components of a document in the given order. -/
def plannedComponents (g : Graph) (order : List String) : List Declaration :=
  (order.filterMap g.get?).filter (·.kind != busKind)

/-- The lines of a plan for the document of a file. -/
def planLines (registry : Registry σ) (file : String) (g : Graph) (order : List String)
    (settings : RunSettings) : List String :=
  let components := plannedComponents g order
  ["Run Plan for: " ++ file, rule headingWidth, ""]
    ++ components.flatMap (componentLines registry g)
    ++ ["", "  " ++ toString components.length ++ " component(s) will be started.",
      "  backend: " ++ Style.bold.apply settings.mode.backend,
      "  workers: " ++ toString settings.workers]
    ++ (match settings.policy.input with
      | some name => ["  input:   " ++ name]
      | none => [])

end Pipeworks.Command
