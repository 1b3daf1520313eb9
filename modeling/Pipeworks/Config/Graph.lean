import Std.Data.HashMap
import Pipeworks.Config.Parser

/-!
# The graph of a document

Declarations are put into the graph one at a time, and each may refer only to
declarations that are there already. So every edge leads from an earlier
declaration to a later one.

`Graph.order` lists the names with every declaration after those it refers to.
It is found by depth-first search with an explicit stack; a list that is not
such an order would be refused.
-/

namespace Pipeworks.Config

/-- A declaration with the names it refers to. -/
structure Node where
  declaration : Declaration
  dependencies : List String

/-- Declarations in document order. `index` maps each name to its position; an
edge leads from a position to the position of a dependent, the latest edge
standing first. -/
structure Graph where
  nodes : Array Node
  index : Std.HashMap String Nat
  edges : List (Nat × Nat)

namespace Graph

/-- The graph without declarations. -/
def empty : Graph :=
  ⟨#[], ∅, []⟩

instance : Inhabited Graph := ⟨empty⟩

/-- Number of declarations. -/
def size (g : Graph) : Nat :=
  g.nodes.size

/-- The declarations in document order. -/
def declarations (g : Graph) : List Declaration :=
  g.nodes.toList.map (·.declaration)

/-- The names in document order. -/
def names (g : Graph) : List String :=
  g.declarations.map (·.name)

/-- The position of a name. -/
def position? (g : Graph) (name : String) : Option Nat :=
  g.index[name]?

def contains (g : Graph) (name : String) : Bool :=
  (g.position? name).isSome

/-- The positions of the given names, or the first name that is not declared. -/
def positions (g : Graph) : List String → Except String (List Nat)
  | [] => .ok []
  | name :: rest =>
    match g.position? name with
    | none => .error name
    | some p => (g.positions rest).map (p :: ·)

/-- Add a declaration after those that are there. -/
def insert (g : Graph) (d : Declaration) : Except Fault Graph :=
  if g.contains d.name then .error (.forbiddenName d.name .duplicate)
  else
    match g.positions d.references with
    | .error name => .error (.unresolvedReference name d.name)
    | .ok sources =>
      .ok { nodes := g.nodes.push ⟨d, d.references⟩
            index := g.index.insert d.name g.size
            edges := (sources.map (·, g.size)).reverse ++ g.edges }

def node? (g : Graph) (name : String) : Option Node :=
  (g.position? name).bind fun p => g.nodes[p]?

/-- The declaration of a name. -/
def get? (g : Graph) (name : String) : Option Declaration :=
  (g.node? name).map (·.declaration)

/-- The names a declaration refers to, in the order of first mention. -/
def dependencies (g : Graph) (name : String) : List String :=
  ((g.node? name).map (·.dependencies)).getD []

/-- The name at a position. -/
def name? (g : Graph) (p : Nat) : Option String :=
  g.nodes[p]?.map (·.declaration.name)

/-- The positions edges lead to from a position, the latest edge first. -/
def successors (g : Graph) (p : Nat) : List Nat :=
  g.edges.filterMap fun e => if e.1 = p then some e.2 else none

/-- The names that refer to a declaration, in document order. -/
def dependents (g : Graph) (name : String) : List String :=
  match g.position? name with
  | none => []
  | some p => ((g.successors p).mergeSort (· ≤ ·)).filterMap g.name?

/-- The declarations of a kind, in document order. -/
def ofKind (g : Graph) (kind : String) : List Declaration :=
  g.declarations.filter (·.kind == kind)

/-- The positions that have not been discovered. -/
def undiscovered (g : Graph) (discovered : List Nat) : List Nat :=
  (List.range g.size).filter (!discovered.contains ·)

theorem undiscovered_lt {g : Graph} {discovered : List Nat} {p : Nat} (hp : p < g.size)
    (hd : discovered.contains p = false) :
    (g.undiscovered (p :: discovered)).length < (g.undiscovered discovered).length := by
  have hsub : g.undiscovered (p :: discovered)
      = (g.undiscovered discovered).filter (fun q => !(q == p)) := by
    simp only [undiscovered, List.filter_filter, List.contains_cons]
    refine List.filter_congr fun q _ => ?_
    cases q == p <;> simp
  have hmem : p ∈ g.undiscovered discovered := by
    simp only [undiscovered, List.mem_filter, List.mem_range]
    exact ⟨hp, by simp only [hd, Bool.not_false]⟩
  rw [hsub]
  exact List.length_filter_lt_length_iff_exists.2 ⟨p, hmem, by simp⟩

/-- The state of a search: the positions discovered, and those finished, the
latest first. -/
structure Search where
  discovered : List Nat
  finished : List Nat

/-- Search depth first until the stack is empty. A position is discovered when it
is first at the top of the stack, and its undiscovered successors then go on top
of it; it is finished when it is at the top again. -/
def explore (g : Graph) (s : Search) (stack : List Nat) : Search :=
  match stack with
  | [] => s
  | p :: rest =>
    if _hd : s.discovered.contains p then
      explore g { s with finished := if s.finished.contains p then s.finished else p :: s.finished }
        rest
    else if _hp : p < g.size then
      let discovered := p :: s.discovered
      let next := (g.successors p).filter (!discovered.contains ·)
      explore g { s with discovered } (next.reverse ++ p :: rest)
    else explore g s rest
termination_by ((g.undiscovered s.discovered).length, stack.length)
decreasing_by
  · exact Prod.Lex.right _ (by simp)
  · exact Prod.Lex.left _ _ (undiscovered_lt _hp (by simpa using _hd))
  · exact Prod.Lex.right _ (by simp)

/-- Search from every position in turn that has not been discovered before. -/
def search (g : Graph) : Search :=
  (List.range g.size).foldl
    (fun s p => if s.discovered.contains p then s else g.explore s [p]) ⟨[], []⟩

/-- Whether every edge leads forwards in a list of positions. -/
def respects (g : Graph) (order : List Nat) : Bool :=
  g.edges.all fun e => decide (order.idxOf e.1 < order.idxOf e.2)

/-- The names, every declaration after those it refers to. -/
def order (g : Graph) : Except Fault (List String) :=
  let order := g.search.finished
  if g.respects order then .ok (order.filterMap g.name?) else .error (.config .cyclicGraph)

/-- The graph of declarations that are put in one after another. -/
def ofDeclarations (ds : List Declaration) : Except Fault Graph :=
  ds.foldlM insert empty

/-- The graph of a document, the variables replaced by their values. -/
def resolve (env : Environment) (ds : List Declaration) : Except Fault Graph :=
  ofDeclarations (ds.map (·.resolve env))

/-- The graph as JSON: one member for each declaration. -/
def toJson (g : Graph) : Json :=
  .object (g.declarations.map fun d => (d.name, d.toJson))

end Graph

/-- Read the graph of a text. -/
def load (env : Environment) (text : String) : Except Fault Graph := do
  Graph.resolve env (← parse text)

end Pipeworks.Config
