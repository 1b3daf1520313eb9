import Pipeworks.Component.Registry
import Pipeworks.Run.Context
import Pipeworks.Settings.RunSettings

/-!
# Building the components of a document

Components are built in document order, so that each finds the live components
it refers to. When a component cannot be built, those built before are closed,
the latest first. A constructor that panics takes the whole program with it.
-/

namespace Pipeworks

open Config

variable {σ : Type}

/-- The entries built so far, the latest first. -/
abbrev Built (σ : Type) := List (Entry σ)

/-- Close what was built before a failure. -/
def abandon (built : Built σ) (s : Scene σ) : Scene σ :=
  (closeEach (built.map fun e => (e.name, e.component)) s).2

/-- The options of a declaration: its block and the live components it refers to. -/
def optionsOf (g : Graph) (built : Built σ) (d : Declaration) : Options (Component σ) :=
  let live := (g.dependencies d.name).filterMap fun name =>
    (Context.find? built name).map fun e => (name, e.component)
  ⟨d.name, d.block, live⟩

/-- The fault of a declaration that no constructor is registered for. -/
def noConstructor (d : Declaration) : Fault :=
  .notFound "component factory" (d.kind ++ " " ++ d.type ++ " (for " ++ inQuotes d.name ++ ")")

/-- Build the declarations one after another. -/
def buildEach (g : Graph) (registry : Registry σ) (built : Built σ) (s : Scene σ) :
    List Declaration → Outcome (Built σ) × Scene σ
  | [] => (.ok built, s)
  | d :: rest =>
    match registry.find? d.kind d.type with
    | none => (.failed (noConstructor d), abandon built s)
    | some construct =>
      let options := optionsOf g built d
      let r := construct options s.world
      match r.outcome with
      | .failed e => (.failed e, abandon built ⟨r.world, s.deeds⟩)
      | .panicked text => (.panicked text, ⟨r.world, s.deeds⟩)
      | .ok component =>
        let entry := Entry.fresh d.name d.kind d.type component options (options.live.map (·.1))
        buildEach g registry (entry :: built) ⟨r.world, s.deeds ++ [.built d.name]⟩ rest

/-- Build every component of a document; a declaration of the bus is none. -/
def instantiate (g : Graph) (registry : Registry σ) (settings : RunSettings) (session : String)
    (s : Scene σ) : Outcome (Context σ) × Scene σ :=
  match buildEach g registry [] s (g.declarations.filter (·.kind != busKind)) with
  | (.ok built, s) =>
    match Context.build session settings.policy.input built.reverse with
    | .ok context => (.ok context, s)
    | .error e => (.failed e, abandon built s)
  | (.failed e, s) => (.failed e, s)
  | (.panicked text, s) => (.panicked text, s)

end Pipeworks
