import Pipeworks.Component.Basic
import Pipeworks.Lifecycle.Stage

/-!
# The components of a run

A context holds the components of one run in document order. It is closed once:
every component gets its call to close, the latest first, whatever the calls
before it came to. A scene keeps, beside the world, the record of the components
that were built and closed.
-/

namespace Pipeworks

/-- A component of a run. -/
structure Entry (σ : Type) where
  name : String
  kind : String
  type : String
  component : Component σ
  capabilities : Capabilities
  /-- The options it was built from. -/
  options : Options (Component σ)
  /-- The components it refers to. -/
  dependencies : List String
  stage : Stage

/-- The entry of a new component. -/
def Entry.fresh {σ : Type} (name kind type : String) (component : Component σ)
    (options : Options (Component σ)) (dependencies : List String) : Entry σ :=
  ⟨name, kind, type, component, component.capabilities, options, dependencies, .created⟩

def Entry.has {σ : Type} (e : Entry σ) (c : Capability) : Bool :=
  e.capabilities.contains c

/-- The entry as JSON. -/
def Entry.toJson {σ : Type} (e : Entry σ) : Json :=
  .object [("name", .string e.name), ("kind", .string e.kind), ("type", .string e.type),
    ("capabilities", .string e.capabilities.text),
    ("dependencies", .array (e.dependencies.map Json.string)), ("state", .string e.stage.text)]

/-- What happened to a component. -/
inductive Deed where
  | built (component : String)
  | closed (component : String)
  deriving DecidableEq, Repr

/-- A world, with what happened to the components that act on it. -/
structure Scene (σ : Type) where
  world : σ
  /-- The deeds so far, in order. -/
  deeds : List Deed

/-- A scene without deeds. -/
def Scene.ofWorld {σ : Type} (world : σ) : Scene σ :=
  ⟨world, []⟩

/-- The components of a run. -/
structure Context (σ : Type) where
  session : String
  entries : List (Entry σ)
  /-- The component that is to be the input. -/
  designated : Option String
  closed : Bool

namespace Context

variable {σ : Type}

/-- The first name that stands twice. -/
def repeatedName? (seen : List String) : List (Entry σ) → Option String
  | [] => none
  | e :: rest => if seen.contains e.name then some e.name else repeatedName? (e.name :: seen) rest

/-- The first entry of a name. -/
def find? (entries : List (Entry σ)) (name : String) : Option (Entry σ) :=
  entries.find? (·.name == name)

/-- Put entries together, with a designated input if there is one. -/
def build (session : String) (designated : Option String) (entries : List (Entry σ)) :
    Except Fault (Context σ) :=
  match repeatedName? [] entries with
  | some name => .error (.config (.registeredTwice name))
  | none =>
    let context : Context σ := ⟨session, entries, designated, false⟩
    match designated with
    | none => .ok context
    | some name =>
      match find? entries name with
      | none => .error (.notFound "input component" name)
      | some e => if e.has .input then .ok context else .error (.config (.notAnInput name))

def get? (c : Context σ) (name : String) : Option (Entry σ) :=
  find? c.entries name

/-- The entries with a capability. -/
def having (c : Context σ) (k : Capability) : List (Entry σ) :=
  c.entries.filter (·.has k)

/-- The input: the designated component, else the first that can be one. -/
def input? (c : Context σ) : Option (Entry σ) :=
  match c.designated with
  | some name => c.get? name
  | none => c.entries.find? (·.has .input)

/-- The input, which must be there. -/
def input (c : Context σ) : Except Fault (Entry σ) :=
  match c.input? with
  | some e => .ok e
  | none => .error (.notFound "input component" "any")

/-- Move a component to another stage. -/
def advance (c : Context σ) (name : String) (next : Stage) : Except Fault (Context σ) :=
  match c.get? name with
  | none => .ok c
  | some e =>
    (Stage.advance name e.stage next).map fun stage =>
      { c with entries := c.entries.map fun e => if e.name = name then { e with stage } else e }

end Context

/-- Close components in the given order; the faults of those whose call failed or
panicked are collected. -/
def closeEach {σ : Type} : List (String × Component σ) → Scene σ → List Fault × Scene σ
  | [], s => ([], s)
  | (name, c) :: rest, s =>
    let r := c.close s.world
    let (faults, s) := closeEach rest ⟨r.world, s.deeds ++ [.closed name]⟩
    match r.outcome.containedIn name "panicked while closing" with
    | .ok () => (faults, s)
    | .error e => (e :: faults, s)

/-- Close all components of a context, the latest first, unless that was done. -/
def Context.closeAll {σ : Type} (c : Context σ) (s : Scene σ) : List Fault × Context σ × Scene σ :=
  if c.closed then ([], c, s)
  else
    let (faults, s) := closeEach (c.entries.reverse.map fun e => (e.name, e.component)) s
    (faults, { c with closed := true }, s)

end Pipeworks
