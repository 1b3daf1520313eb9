import Pipeworks.Component.Basic
import Pipeworks.Text.Shown

/-!
# Constructors of components

A registry knows constructors by kind and type. A constructor for every type of
a kind is used where none is registered for the type itself.
-/

namespace Pipeworks

/-- What a constructor leaves behind. -/
structure Construction (σ : Type) where
  outcome : Outcome (Component σ)
  world : σ

/-- Builds a component from its options. -/
abbrev Constructor (σ : Type) := Options (Component σ) → σ → Construction σ

/-- Constructors by kind and type; a later registration replaces an earlier one. -/
structure Registry (σ : Type) where
  constructors : List ((String × String) × Constructor σ)

/-- The type that stands for every type. -/
def anyType : String := "*"

namespace Registry

variable {σ : Type}

def empty : Registry σ := ⟨[]⟩

/-- Register a constructor for a kind and a type. -/
def register (r : Registry σ) (kind type : String) (c : Constructor σ) : Registry σ :=
  ⟨((kind, type), c) :: r.constructors.filter (·.1 != (kind, type))⟩

/-- Register a constructor for a whole kind. -/
def registerKind (r : Registry σ) (kind : String) (c : Constructor σ) : Registry σ :=
  r.register kind anyType c

/-- The constructor for a kind and a type: the one of exactly that type first. -/
def find? (r : Registry σ) (kind type : String) : Option (Constructor σ) :=
  r.constructors.lookup (kind, type) <|> r.constructors.lookup (kind, anyType)

def contains (r : Registry σ) (kind type : String) : Bool :=
  (r.find? kind type).isSome

/-- The registered pairs as texts, in order. -/
def keys (r : Registry σ) : List String :=
  (r.constructors.map fun c => c.1.1 ++ "/" ++ c.1.2).mergeSort (fun a b => decide (a ≤ b))

/-- One line that shows what is registered. -/
def summary (r : Registry σ) : String :=
  "FactoryRegistry \x7b constructors: [" ++ ", ".intercalate (r.keys.map Text.shown) ++ "] \x7d"

end Registry

end Pipeworks
