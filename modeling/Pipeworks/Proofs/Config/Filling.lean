import Pipeworks.Config.Outline
import Pipeworks.Proofs.Config.Insertion
import Pipeworks.Proofs.Config.Walking

/-!
# What an environment can change

The variables of a document are filled in leaf by leaf: a variable becomes a text or the
absent value, and everything around it stays. Filling in therefore leaves the references
alone, and a graph looks at a declaration only through its name and its references. So two
environments give the same fault for a text, or graphs that differ at most in such leaves.
-/

namespace Pipeworks.Config

/-! ## Leaves -/

mutual

/-- A value with its variables filled in: each is replaced by its text if it is set, and by
the absent value if it is not; all other leaves, keys and containers are kept. -/
inductive Filled (env : Environment) : Value → Value → Prop where
  | kept {v} (leaf : v.isLeaf = true) (fixed : ∀ name, v ≠ .variable name) : Filled env v v
  | set {name s} (known : env name = some s) : Filled env (.variable name) (.text s)
  | unset {name} (unknown : env name = none) : Filled env (.variable name) .absent
  | block {entries entries'} (inside : FilledEntries env entries entries') :
      Filled env (.block entries) (.block entries')
  | items {values values'} (inside : FilledItems env values values') :
      Filled env (.items values) (.items values')

/-- Entries with the same keys in the same order, their values filled in. -/
inductive FilledEntries (env : Environment) :
    List (String × Value) → List (String × Value) → Prop where
  | nil : FilledEntries env [] []
  | cons {key v v' rest rest'} (first : Filled env v v') (others : FilledEntries env rest rest') :
      FilledEntries env ((key, v) :: rest) ((key, v') :: rest')

/-- As many values in the same order, each of them filled in. -/
inductive FilledItems (env : Environment) : List Value → List Value → Prop where
  | nil : FilledItems env [] []
  | cons {v v' rest rest'} (first : Filled env v v') (others : FilledItems env rest rest') :
      FilledItems env (v :: rest) (v' :: rest')

end

/-- A declaration whose block is filled in. -/
structure Declaration.Filled (env : Environment) (d d' : Declaration) : Prop where
  name : d'.name = d.name
  kind : d'.kind = d.kind
  type : d'.type = d.type
  line : d'.line = d.line
  block : FilledEntries env d.block d'.block

namespace Value

theorem filled_fill (env : Environment) {v : Value} (leaf : v.isLeaf = true) :
    Filled env v (env.fill v) := by
  cases v with
  | «variable» name =>
    rw [Environment.fill]
    cases here : env name with
    | some s => exact .set here
    | none => exact .unset here
  | block entries => simp [isLeaf] at leaf
  | items values => simp [isLeaf] at leaf
  | _ => exact .kept rfl (by simp)

mutual

theorem filled_mapLeavesRec (env : Environment) (v : Value) :
    Filled env v (mapLeavesRec env.fill v) := by
  cases v with
  | block entries => exact .block (filled_mapEntriesRec env entries)
  | items values => exact .items (filled_mapItemsRec env values)
  | _ => exact filled_fill env rfl

theorem filled_mapEntriesRec (env : Environment) (entries : List (String × Value)) :
    FilledEntries env entries (mapEntriesRec env.fill entries) := by
  cases entries with
  | nil => exact .nil
  | cons e rest => exact .cons (filled_mapLeavesRec env e.2) (filled_mapEntriesRec env rest)

theorem filled_mapItemsRec (env : Environment) (values : List Value) :
    FilledItems env values (mapItemsRec env.fill values) := by
  cases values with
  | nil => exact .nil
  | cons v rest => exact .cons (filled_mapLeavesRec env v) (filled_mapItemsRec env rest)

end

mutual

/-- Filling in adds no reference and takes none away. -/
theorem referencesRec_filled {env : Environment} {v v' : Value} (filled : Filled env v v') :
    v'.referencesRec = v.referencesRec := by
  cases filled with
  | kept => rfl
  | set | unset => rfl
  | block inside => exact entryReferencesRec_filled inside
  | items inside => exact itemReferencesRec_filled inside

theorem entryReferencesRec_filled {env : Environment} {entries entries' : List (String × Value)}
    (filled : FilledEntries env entries entries') :
    entryReferencesRec entries' = entryReferencesRec entries := by
  cases filled with
  | nil => rfl
  | cons first others =>
    rw [entryReferencesRec, entryReferencesRec, referencesRec_filled first,
      entryReferencesRec_filled others]

theorem itemReferencesRec_filled {env : Environment} {values values' : List Value}
    (filled : FilledItems env values values') :
    itemReferencesRec values' = itemReferencesRec values := by
  cases filled with
  | nil => rfl
  | cons first others =>
    rw [itemReferencesRec, itemReferencesRec, referencesRec_filled first,
      itemReferencesRec_filled others]

end

end Value

namespace Declaration

theorem filled_resolve (env : Environment) (d : Declaration) : d.Filled env (d.resolve env) where
  name := rfl
  kind := rfl
  type := rfl
  line := rfl
  block := by
    have inside := Value.filled_mapEntriesRec env d.block
    rwa [← Block.mapLeaves_eq] at inside

theorem Filled.references {env : Environment} {d d' : Declaration} (filled : d.Filled env d') :
    d'.references = d.references := by
  rw [Declaration.references, Declaration.references, Block.references_eq, Block.references_eq,
    Value.entryReferencesRec_filled filled.block]

/-- What stands around the block of a declaration. -/
def heading (d : Declaration) : String × String × String × Nat := (d.name, d.kind, d.type, d.line)

theorem Filled.heading {env : Environment} {d d' : Declaration} (filled : d.Filled env d') :
    d'.heading = d.heading := by
  rw [Declaration.heading, filled.name, filled.kind, filled.type, filled.line, Declaration.heading]

end Declaration

/-! ## Graphs -/

/-- A node without the block of its declaration. -/
def Node.outline (n : Node) : (String × String × String × Nat) × List String :=
  (n.declaration.heading, n.dependencies)

namespace Graph

variable {g g' : Graph} {d d' : Declaration}

/-- Two graphs that differ at most in the blocks of their declarations. -/
structure Alike (g g' : Graph) : Prop where
  nodes : g.nodes.toList.map Node.outline = g'.nodes.toList.map Node.outline
  index : g.index = g'.index
  edges : g.edges = g'.edges

namespace Alike

theorem size (alike : g.Alike g') : g.size = g'.size := by
  have lengths := congrArg List.length alike.nodes
  rw [List.length_map, List.length_map] at lengths
  exact lengths

theorem position? (alike : g.Alike g') (name : String) : g.position? name = g'.position? name := by
  rw [Graph.position?, Graph.position?, alike.index]

theorem positions (alike : g.Alike g') (names : List String) :
    g.positions names = g'.positions names := by
  induction names with
  | nil => rfl
  | cons name rest ih => rw [Graph.positions, Graph.positions, alike.position?, ih]

theorem successors (alike : g.Alike g') (p : Nat) : g.successors p = g'.successors p := by
  rw [Graph.successors, Graph.successors, alike.edges]

theorem node (alike : g.Alike g') (p : Nat) :
    g.nodes[p]?.map Node.outline = g'.nodes[p]?.map Node.outline := by
  have here := congrArg (·[p]?) alike.nodes
  simpa only [List.getElem?_map, Array.getElem?_toList] using here

theorem name? (alike : g.Alike g') (p : Nat) : g.name? p = g'.name? p := by
  have here := congrArg (Option.map fun o => o.1.1) (alike.node p)
  rw [Option.map_map, Option.map_map] at here
  exact here

theorem node? (alike : g.Alike g') (name : String) :
    (g.node? name).map Node.outline = (g'.node? name).map Node.outline := by
  rw [Graph.node?, Graph.node?, alike.position?]
  cases g'.position? name with
  | none => rfl
  | some p => exact alike.node p

/-! What is seen of two such graphs. -/

theorem headings (alike : g.Alike g') :
    g.declarations.map Declaration.heading = g'.declarations.map Declaration.heading := by
  have firsts := congrArg (List.map Prod.fst) alike.nodes
  rw [List.map_map, List.map_map] at firsts
  rw [declarations, declarations, List.map_map, List.map_map]
  exact firsts

theorem dependencies (alike : g.Alike g') (name : String) :
    g.dependencies name = g'.dependencies name := by
  have seconds := congrArg (Option.map Prod.snd) (alike.node? name)
  rw [Option.map_map, Option.map_map] at seconds
  exact congrArg (Option.getD · []) seconds

theorem dependents (alike : g.Alike g') (name : String) :
    g.dependents name = g'.dependents name := by
  rw [Graph.dependents, Graph.dependents, alike.position?, funext alike.name?]
  simp only [alike.successors]

theorem ofKind (alike : g.Alike g') (kind : String) :
    (g.ofKind kind).map Declaration.heading = (g'.ofKind kind).map Declaration.heading := by
  have chosen (g : Graph) : (g.ofKind kind).map Declaration.heading =
      (g.declarations.map Declaration.heading).filter (·.2.1 == kind) := by
    rw [List.filter_map]
    rfl
  rw [chosen, chosen, alike.headings]

theorem explore (alike : g.Alike g') (s : Search) (stack : List Nat) :
    g.explore s stack = g'.explore s stack := by
  fun_induction Graph.explore g s stack with
  | case1 s => rw [Graph.explore]
  | case2 s p rest known ih =>
    rw [Graph.explore.eq_def g' s (p :: rest)]
    simp only [known, dite_true]
    exact ih
  | case3 s p rest unknown inside discovered next ih =>
    rw [Graph.explore.eq_def g' s (p :: rest)]
    simp only [unknown, alike.size ▸ inside, ← alike.successors, dite_true]
    exact ih
  | case4 s p rest unknown outside ih =>
    rw [Graph.explore.eq_def g' s (p :: rest)]
    simp only [unknown, alike.size ▸ outside, dite_false]
    exact ih

theorem order (alike : g.Alike g') : g.order = g'.order := by
  have search : g.search = g'.search := by
    simp only [Graph.search, alike.size, alike.explore]
  rw [Graph.order, Graph.order, search, Graph.respects, Graph.respects, alike.edges,
    funext alike.name?]

end Alike

/-- Two results of reading a text: the same fault, or graphs that are alike. -/
inductive AlikeResults : Except Fault Graph → Except Fault Graph → Prop where
  | refused (e : Fault) : AlikeResults (.error e) (.error e)
  | accepted {g g' : Graph} (alike : g.Alike g') : AlikeResults (.ok g) (.ok g')

/-- Insertion looks at a declaration only through its heading and its references. -/
theorem Alike.insert (alike : g.Alike g') (heading : d.heading = d'.heading)
    (references : d.references = d'.references) : AlikeResults (g.insert d) (g'.insert d') := by
  have name : d.name = d'.name := congrArg Prod.fst heading
  rw [Graph.insert, Graph.insert, contains, contains, alike.position?, alike.positions, name,
    references]
  split
  · exact .refused _
  · cases g'.positions d'.references with
    | error unknown => exact .refused _
    | ok sources =>
      refine .accepted ⟨?_, ?_, ?_⟩
      · simp only [Array.toList_push, List.map_append, alike.nodes, List.map_cons, List.map_nil,
          Node.outline, heading]
      · simp only [alike.index, alike.size]
      · simp only [alike.edges, alike.size]

theorem alike_foldlM {ds ds' : List Declaration} (alike : g.Alike g')
    (same : List.Forall₂ (fun d d' => d.heading = d'.heading ∧ d.references = d'.references) ds ds') :
    AlikeResults (ds.foldlM Graph.insert g) (ds'.foldlM Graph.insert g') := by
  induction same generalizing g g' with
  | nil => exact .accepted alike
  | @cons d d' rest rest' first others ih =>
    rw [List.foldlM_cons, List.foldlM_cons]
    have step := alike.insert first.1 first.2
    generalize g.insert d = r at step
    generalize g'.insert d' = r' at step
    cases step with
    | refused e => exact .refused e
    | accepted alike => exact ih alike

/-- An accepted document is kept in document order. -/
theorem declarations_foldlM {ds : List Declaration} (h : ds.foldlM Graph.insert g = .ok g') :
    g'.declarations = g.declarations ++ ds := by
  induction ds generalizing g with
  | nil =>
    obtain rfl := Except.ok.inj h
    exact (List.append_nil _).symm
  | cons d rest ih =>
    rw [List.foldlM_cons] at h
    cases accepted : g.insert d with
    | error e => rw [accepted] at h; cases h
    | ok g₁ =>
      rw [accepted] at h
      obtain ⟨-, sources, -, rfl⟩ := insert_ok accepted
      rw [ih h]
      simp [declarations]

end Graph

/-- Reading one text in two environments gives the same fault, or two graphs with the same
headings, dependencies, dependents, declarations of each kind and order; and each holds the
declarations of the text with the variables of its environment filled in. -/
theorem environment_fills_leaves (text : String) (e₁ e₂ : Environment) :
    (∃ fault, load e₁ text = .error fault ∧ load e₂ text = .error fault) ∨
    ∃ ds g₁ g₂, parse text = .ok ds ∧ load e₁ text = .ok g₁ ∧ load e₂ text = .ok g₂ ∧
      List.Forall₂ (Declaration.Filled e₁) ds g₁.declarations ∧
      List.Forall₂ (Declaration.Filled e₂) ds g₂.declarations ∧
      g₁.declarations.map Declaration.heading = g₂.declarations.map Declaration.heading ∧
      (∀ name, g₁.dependencies name = g₂.dependencies name) ∧
      (∀ name, g₁.dependents name = g₂.dependents name) ∧
      (∀ kind, (g₁.ofKind kind).map Declaration.heading =
        (g₂.ofKind kind).map Declaration.heading) ∧
      g₁.order = g₂.order := by
  cases parsed : parse text with
  | error fault => exact .inl ⟨fault, by rw [load, parsed]; rfl, by rw [load, parsed]; rfl⟩
  | ok ds =>
    have loaded (env : Environment) : load env text = Graph.resolve env ds := by
      rw [load, parsed]
      rfl
    have filled (env : Environment) :
        List.Forall₂ (Declaration.Filled env) ds (ds.map (·.resolve env)) := by
      rw [List.forall₂_map_right_iff]
      exact List.forall₂_same.mpr fun d _ => d.filled_resolve env
    have same : List.Forall₂ (fun d d' => d.heading = d'.heading ∧ d.references = d'.references)
        (ds.map (·.resolve e₁)) (ds.map (·.resolve e₂)) := by
      rw [List.forall₂_map_left_iff, List.forall₂_map_right_iff]
      refine List.forall₂_same.mpr fun d _ => ?_
      have first := d.filled_resolve e₁
      have second := d.filled_resolve e₂
      exact ⟨first.heading.trans second.heading.symm, first.references.trans second.references.symm⟩
    have results := Graph.alike_foldlM (g := .empty) ⟨rfl, rfl, rfl⟩ same
    rw [loaded e₁, loaded e₂, Graph.resolve, Graph.resolve, Graph.ofDeclarations,
      Graph.ofDeclarations]
    have kept {env : Environment} {g : Graph}
        (h : (ds.map (·.resolve env)).foldlM Graph.insert .empty = .ok g) :
        List.Forall₂ (Declaration.Filled env) ds g.declarations := by
      rw [Graph.declarations_foldlM h]
      exact filled env
    generalize first : (ds.map (·.resolve e₁)).foldlM Graph.insert .empty = r₁ at results
    generalize second : (ds.map (·.resolve e₂)).foldlM Graph.insert .empty = r₂ at results
    cases results with
    | refused fault => exact .inl ⟨fault, rfl, rfl⟩
    | @accepted g₁ g₂ alike =>
      exact .inr ⟨ds, g₁, g₂, rfl, rfl, rfl, kept first, kept second, alike.headings,
        alike.dependencies, alike.dependents, alike.ofKind, alike.order⟩

end Pipeworks.Config
