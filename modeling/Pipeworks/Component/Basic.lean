import Pipeworks.Bus.Work
import Pipeworks.Component.Capability
import Pipeworks.Component.Options

/-!
# Components

A component is a record of the roles it plays. A component without state of its
own does not look at the world its calls act on.
-/

namespace Pipeworks

/-- An event handler with the topics it asks for. -/
structure Handler (σ : Type) where
  topics : List String
  handle : Event → Work σ

/-- A component. -/
structure Component (σ : Type) where
  init : Option (PhaseCall σ) := none
  parallelInit : Option (PhaseCall σ) := none
  start : Option (PhaseCall σ) := none
  parallelStart : Option (PhaseCall σ) := none
  input : Option (Call σ Pulled) := none
  processor : Option (Processor σ) := none
  output : Option (Output σ) := none
  handler : Option (Handler σ) := none
  close : Call σ Unit := fun world => { outcome := .ok (), world }

namespace Component

variable {σ : Type}

instance : Inhabited (Component σ) := ⟨{}⟩

/-- Whether a component has a capability. -/
def has (c : Component σ) : Capability → Bool
  | .init => c.init.isSome
  | .parallelInit => c.parallelInit.isSome
  | .start => c.start.isSome
  | .parallelStart => c.parallelStart.isSome
  | .input => c.input.isSome
  | .processor => c.processor.isSome
  | .output => c.output.isSome
  | .streamingOutput => (c.output.bind (·.deliverChunk)).isSome
  | .eventHandler => c.handler.isSome

/-- The capabilities of a component. -/
def capabilities (c : Component σ) : Capabilities :=
  Capability.all.foldl (fun cs k => if c.has k then cs.insert k else cs) Capabilities.empty

end Component

end Pipeworks
