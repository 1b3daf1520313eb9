import Pipeworks.Proofs.Config.Insertion

/-!
# A graph in parallel tables

`Graph.insert` gives a new graph or a fault. Here the same graph is kept in tables that stand side
by side and are changed one after another, while insertion goes on: declarations, dependencies, the
positions of names, and an arena of vertices and edges. A change that stops keeps what it has done
so far, and a look beyond the end of a table stops it too.

The main statement is that neither happens: after any insertions the tables are in step with each
other, they show the graph that was offered the same declarations, and an insertion that stops has
changed nothing.
-/

namespace Pipeworks.Config

/-- Why a change stops. -/
inductive Halt where
  | fault (e : Fault)
  /-- A position or vertex was used that is not there. -/
  | outOfBounds

/-- A graph in parallel tables. -/
structure Tables where
  declarations : Array Declaration
  dependencies : Array (List String)
  index : Std.HashMap String Nat
  /-- The vertex of each declaration. -/
  nodes : Array Nat
  /-- The position that each vertex stands for. -/
  vertices : Array Nat
  /-- The edges from a vertex to the vertex of a dependent, the latest first. -/
  edges : List (Nat × Nat)

/-- A change of the tables that may stop half-way. -/
abbrev Tables.Change := ExceptT Halt (StateM Tables)

namespace Tables

variable {α β : Type}

/-- The tables without declarations. -/
def empty : Tables := ⟨#[], #[], ∅, #[], #[], []⟩

/-- The names in document order. -/
def names (t : Tables) : List String := t.declarations.toList.map (·.name)

/-! ## Insertion in place -/

/-- The vertices of the names that a declaration refers to, looked up one after another. -/
def sources (referrer : String) : List String → Change (List Nat)
  | [] => return []
  | name :: rest => do
    let t ← get
    let some p := t.index[name]? | throw (.fault (.unresolvedReference name referrer))
    let some v := t.nodes[p]? | throw .outOfBounds
    return v :: (← sources referrer rest)

/-- Add a vertex that stands for a position. -/
def addVertex (position : Nat) : Change Nat :=
  modifyGet fun t => (t.vertices.size, { t with vertices := t.vertices.push position })

/-- Add edges to a vertex one after another. -/
def addEdges (target : Nat) : List Nat → Change Unit
  | [] => return
  | source :: rest => do
    let t ← get
    if source < t.vertices.size ∧ target < t.vertices.size then
      set { t with edges := (source, target) :: t.edges }
    else throw .outOfBounds
    addEdges target rest

/-- Add a declaration after those that are there. -/
def insert (d : Declaration) : Change Unit := do
  if (← get).index.contains d.name then throw (.fault (.forbiddenName d.name .duplicate))
  let sources ← sources d.name d.references
  let position := (← get).declarations.size
  let node ← addVertex position
  addEdges node sources
  modify fun t => { t with index := t.index.insert d.name position }
  modify fun t => { t with nodes := t.nodes.push node }
  modify fun t => { t with dependencies := t.dependencies.push d.references }
  modify fun t => { t with declarations := t.declarations.push d }

/-- What a change of given tables answers, and the tables it leaves behind. -/
def Change.on (c : Change α) (t : Tables) : Except Halt α × Tables :=
  c.run.run t

/-- The tables after insertions, whatever those answered. -/
def inserted (ds : List Declaration) : Tables :=
  ds.foldl (fun t d => ((insert d).on t).2) empty

theorem on_bind (c : Change α) (f : α → Change β) (t : Tables) :
    (c >>= f).on t =
      match c.on t with
      | (.ok a, t) => (f a).on t
      | (.error h, t) => (.error h, t) := by
  simp only [Change.on, ExceptT.run_bind, StateT.run_bind]
  change (match c.run.run t with | (a, t) => _) = _
  rcases c.run.run t with ⟨⟨⟩ | ⟨⟩, t⟩ <;> rfl

theorem on_get (t : Tables) : (get : Change Tables).on t = (.ok t, t) := rfl

theorem on_set (t t' : Tables) : (set t' : Change PUnit).on t = (.ok (), t') := rfl

theorem on_modify (f : Tables → Tables) (t : Tables) :
    (modify f : Change PUnit).on t = (.ok (), f t) := rfl

theorem on_addVertex (position : Nat) (t : Tables) :
    (addVertex position).on t =
      (.ok t.vertices.size, { t with vertices := t.vertices.push position }) := rfl

/-- Edges between vertices that are there are all added. -/
theorem on_addEdges (target : Nat) (sources : List Nat) {t : Tables}
    (there : target < t.vertices.size) (known : ∀ v ∈ sources, v < t.vertices.size) :
    (addEdges target sources).on t =
      (.ok (), { t with edges := (sources.map (·, target)).reverse ++ t.edges }) := by
  induction sources generalizing t with
  | nil => rfl
  | cons source rest ih =>
    obtain ⟨first, others⟩ := List.forall_mem_cons.mp known
    have more := ih (t := { t with edges := (source, target) :: t.edges }) there others
    simp only [addEdges, on_bind, on_get, if_pos (And.intro first there), on_set, more,
      List.map_cons, List.reverse_cons, List.append_assoc, List.singleton_append]

/-! ## The tables of a graph -/

variable {g g' : Graph}

/-- The tables that show a graph. -/
def of (g : Graph) : Tables where
  declarations := g.nodes.map (·.declaration)
  dependencies := g.nodes.map (·.dependencies)
  index := g.index
  nodes := Array.range g.size
  vertices := Array.range g.size
  edges := g.edges

theorem names_of (g : Graph) : (of g).names = g.names := by
  simp [names, of, Graph.names, Graph.declarations]

theorem on_sources (grown : g.Grown) (referrer : String) (names : List String) :
    (sources referrer names).on (of g) =
      match g.positions names with
      | .ok ps => (.ok ps, of g)
      | .error name => (.error (.fault (.unresolvedReference name referrer)), of g) := by
  induction names with
  | nil => rfl
  | cons name rest ih =>
    have lookup : (of g).index[name]? = g.position? name := rfl
    rw [Graph.positions]
    simp only [sources, on_bind, on_get, lookup]
    cases here : g.position? name with
    | none => rfl
    | some p =>
      have inside : (of g).nodes[p]? = some p := by
        simp [of, grown.position_lt here]
      simp only [inside, on_bind, ih]
      cases g.positions rest <;> rfl

/-- Insertion in place does what insertion does, and keeps everything when it is refused. -/
theorem on_insert (grown : g.Grown) (d : Declaration) :
    (insert d).on (of g) =
      match g.insert d with
      | .ok g' => (.ok (), of g')
      | .error e => (.error (.fault e), of g) := by
  have taken : (of g).index.contains d.name = g.contains d.name := by
    rw [Graph.contains, Graph.position?, ← Std.HashMap.contains_eq_isSome_getElem?]
    rfl
  rw [Graph.insert]
  simp only [insert, on_bind, on_get, taken]
  split
  · rfl
  · simp only [on_bind, on_sources grown]
    cases found : g.positions d.references with
    | error name => rfl
    | ok ps =>
      have known : ∀ p ∈ ps, p < g.size + 1 := by
        intro p hp
        have listed : some p ∈ d.references.map g.position? := by
          rw [Graph.positions_ok found]
          exact List.mem_map_of_mem hp
        obtain ⟨r, -, here⟩ := List.mem_map.mp listed
        exact Nat.lt_succ_of_lt (grown.position_lt here)
      have size : (of g).vertices.size = g.size := Array.size_range
      have edges := on_addEdges g.size ps (t := ⟨(of g).declarations, (of g).dependencies,
        (of g).index, (of g).nodes, (of g).vertices.push g.size, (of g).edges⟩)
        (by simp [size]) (by simpa [size] using known)
      have position : (of g).declarations.size = g.size := Array.size_map
      simp only [on_get, position, on_addVertex, size, edges, on_modify]
      simp [of, Graph.size, Array.range_succ]

theorem inserted_eq (ds : List Declaration) : inserted ds = of (.offered ds) := by
  have general (g : Graph) (grown : g.Grown) :
      ds.foldl (fun t d => ((insert d).on t).2) (of g) = of (ds.foldl Graph.offer g) := by
    induction ds generalizing g with
    | nil => rfl
    | cons d ds ih =>
      rw [List.foldl_cons, List.foldl_cons, on_insert grown, Graph.offer]
      cases result : g.insert d with
      | ok g' => exact ih g' (grown.insert result)
      | error e => exact ih g grown
  have start : empty = of .empty := by simp [empty, of, Graph.empty, Graph.size]
  rw [inserted, start]
  exact general .empty Graph.grown_empty

/-! ## In step -/

/-- The tables fit together, and the edges and dependencies fit the declarations. -/
structure InStep (t : Tables) : Prop where
  sizes : t.dependencies.size = t.declarations.size ∧ t.nodes.size = t.declarations.size ∧
    t.vertices.size = t.declarations.size
  distinct : t.names.Nodup
  indexed : ∀ (name : String) (p : Nat), t.index[name]? = some p ↔ t.names[p]? = some name
  /-- The vertex of a declaration stands for its position. -/
  vertices : ∀ p < t.declarations.size, t.nodes[p]? = some p ∧ t.vertices[p]? = some p
  /-- The dependencies are the references in written order, each once. -/
  listed : ∀ (p : Nat) (d : Declaration), t.declarations[p]? = some d →
    t.dependencies[p]? = some (Value.entryReferencesRec d.block).eraseDups
  once : ∀ deps ∈ t.dependencies, deps.Nodup
  backwards : ∀ (p : Nat) (deps : List String), t.dependencies[p]? = some deps →
    ∀ r ∈ deps, ∃ q, q < p ∧ t.names[q]? = some r
  /-- No edge stands twice. -/
  drawn : t.edges.Nodup
  /-- An edge leads from each dependency to each dependent, and there are no others. -/
  joined : ∀ q p : Nat, (q, p) ∈ t.edges ↔
    ∃ deps r, t.dependencies[p]? = some deps ∧ r ∈ deps ∧ t.names[q]? = some r

theorem inStep_of (grown : g.Grown) (drawn : g.Drawn) : (of g).InStep := by
  have node {p : Nat} {deps : List String} (here : (of g).dependencies[p]? = some deps) :
      ∃ n, g.nodes[p]? = some n ∧ n.dependencies = deps := by
    simpa [of] using here
  have named (name : String) (p : Nat) : g.position? name = some p ↔
      (of g).names[p]? = some name := by
    rw [names_of, Graph.getElem?_names, grown.placed]
  refine ⟨by simp [of, Graph.size], ?_, named, ?_, ?_, ?_, ?_, drawn.once, ?_⟩
  · rw [names_of]
    exact grown.nodup_names
  · intro p inside
    have inside : p < g.nodes.size := by simpa [of] using inside
    simp [of, Graph.size, inside]
  · intro p d here
    obtain ⟨n, stands, rfl⟩ : ∃ n, g.nodes[p]? = some n ∧ n.declaration = d := by
      simpa [of] using here
    have listed := (grown.linked p n stands).1
    rw [Declaration.references, Block.references_eq] at listed
    simp [of, stands, listed]
  · intro deps hd
    obtain ⟨n, hn, rfl⟩ : ∃ n ∈ g.nodes, n.dependencies = deps := by simpa [of] using hd
    obtain ⟨p, here⟩ := Array.getElem?_of_mem hn
    rw [(grown.linked p n here).1]
    exact nodup_eraseDups _
  · intro p deps here r hr
    obtain ⟨n, stands, rfl⟩ := node here
    obtain ⟨listed, known⟩ := grown.linked p n stands
    obtain ⟨q, position, edge⟩ := known r (listed ▸ hr)
    exact ⟨q, (grown.forwards _ edge).1, (named r q).mp position⟩
  · intro q p
    refine (drawn.mem_edges grown q p).trans ?_
    constructor
    · rintro ⟨n, r, here, hr, position⟩
      exact ⟨n.dependencies, r, by simp [of, here], hr, (named r q).mp position⟩
    · rintro ⟨deps, r, here, hr, name⟩
      obtain ⟨n, stands, rfl⟩ := node here
      exact ⟨n, r, stands, hr, (named r q).mpr name⟩

/-- However many declarations were inserted and whatever became of each, the tables are in step
and show the graph that was offered these declarations. The next insertion is refused if the name
is taken, and else if a reference is to a name that is not there, the first such reference being
reported; then nothing has changed. Otherwise the declaration comes last. -/
theorem inStep_after_insertions (ds : List Declaration) :
    let t := inserted ds
    t = .of (.offered ds) ∧ t.InStep ∧
    ∀ d,
      (d.name ∈ t.names →
        (insert d).on t = (.error (.fault (.forbiddenName d.name .duplicate)), t)) ∧
      (∀ r, d.name ∉ t.names → d.references.find? (· ∉ t.names) = some r →
        (insert d).on t = (.error (.fault (.unresolvedReference r d.name)), t)) ∧
      (d.name ∉ t.names → (∀ r ∈ d.references, r ∈ t.names) →
        ∃ t', (insert d).on t = (.ok (), t') ∧ t'.declarations = t.declarations.push d) := by
  intro t
  have grown := Graph.grown_offered ds
  have same : t = .of (.offered ds) := inserted_eq ds
  refine ⟨same, same ▸ inStep_of grown (Graph.drawn_offered ds), fun d => ?_⟩
  have comes := on_insert grown d
  rw [same, names_of]
  have shown {g' : Graph} (ok : (Graph.offered ds).insert d = .ok g') :
      (of g').declarations = (of (.offered ds)).declarations.push d := by
    obtain ⟨-, sources, -, rfl⟩ := Graph.insert_ok ok
    simp [of]
  have insertion := grown.insertion d
  generalize (Graph.offered ds).insert d = result at comes insertion
  cases insertion with
  | taken there =>
    refine ⟨fun _ => comes, fun _ fresh => absurd there fresh, fun fresh => absurd there fresh⟩
  | missing fresh first =>
    refine ⟨fun there => absurd there fresh, fun r _ first' => ?_, fun _ known => ?_⟩
    · rw [first] at first'
      obtain rfl := Option.some.inj first'
      exact comes
    · have unknown := List.find?_some first
      exact absurd (known _ (List.mem_of_find?_eq_some first)) (of_decide_eq_true unknown)
  | accepted fresh known ok =>
    refine ⟨fun there => absurd there fresh, fun r _ first => ?_, fun _ _ => ⟨_, comes, shown ok⟩⟩
    have unknown := List.find?_some first
    exact absurd (known _ (List.mem_of_find?_eq_some first)) (of_decide_eq_true unknown)

end Tables

end Pipeworks.Config
