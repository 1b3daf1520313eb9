import Pipeworks.Proofs.Config.Tables
import Pipeworks.Proofs.Config.Order

/-!
# Dependencies and dependents

A graph keeps with each declaration the names it refers to, and apart from that the edges
between positions. `Graph.dependencies` reads the names and `Graph.dependents` the edges;
the main statement is that the answers are the converse of each other, and that a way along
dependencies comes to an end. What carries it is that the dependents of a name, put in order
of their positions, are the names in document order that list it.

The tables answer the same by going through their arena, and never look beyond its end.
-/

namespace Pipeworks.Config

namespace Graph

variable {g : Graph} {a b : String} {p q : Nat}

theorem dependencies_of_node {n : Node} (named : g.position? a = some p)
    (here : g.nodes[p]? = some n) : g.dependencies a = n.dependencies := by
  simp [dependencies, node?, named, here]

theorem dependencies_unknown (unknown : g.position? a = none) : g.dependencies a = [] := by
  simp [dependencies, node?, unknown]

theorem dependents_unknown (unknown : g.position? b = none) : g.dependents b = [] := by
  simp [dependents, unknown]

theorem Grown.position?_eq_none (grown : g.Grown) : g.position? a = none ↔ a ∉ g.names := by
  rw [← grown.contains_iff, contains, Bool.not_eq_true, Option.isSome_eq_false_iff,
    Option.isNone_iff_eq_none]

/-- The node of a known name. -/
theorem Grown.node_of_position (grown : g.Grown) (named : g.position? a = some p) :
    ∃ n, g.nodes[p]? = some n ∧ n.declaration.name = a := by
  simpa [name?] using (grown.placed a p).mp named

/-- An edge leads from one position to another when the name at the first is among the
dependencies of the name at the second. -/
theorem Drawn.edge_iff (drawn : g.Drawn) (grown : g.Grown) (source : g.position? b = some p)
    (target : g.position? a = some q) : (p, q) ∈ g.edges ↔ b ∈ g.dependencies a := by
  obtain ⟨n, here, -⟩ := grown.node_of_position target
  rw [drawn.mem_edges grown, dependencies_of_node target here]
  constructor
  · rintro ⟨n', r, here', hr, position⟩
    obtain rfl : n' = n := Option.some.inj (here'.symm.trans here)
    have same := ((grown.placed r p).mp position).symm.trans ((grown.placed b p).mp source)
    exact Option.some.inj same ▸ hr
  · exact fun hb => ⟨n, b, here, hb, source⟩

/-! ## Dependents in document order -/

theorem Drawn.nodup_successors (drawn : g.Drawn) (p : Nat) : (g.successors p).Nodup := by
  refine drawn.once.filterMap fun e f q he hf => ?_
  simp only [Option.mem_def, Option.ite_none_right_eq_some, Option.some.injEq] at he hf
  exact Prod.ext (he.1.trans hf.1.symm) (he.2.trans hf.2.symm)

/-- The successors in order are the positions, in order, that an edge leads to. -/
theorem Drawn.sorted_successors (drawn : g.Drawn) (grown : g.Grown) (p : Nat) :
    (g.successors p).mergeSort (· ≤ ·) =
      (List.range g.size).filter fun q => decide ((p, q) ∈ g.edges) := by
  have sorted : ((g.successors p).mergeSort (· ≤ ·)).Pairwise (· ≤ ·) := by
    have result := @List.pairwise_mergeSort Nat (fun q r => decide (q ≤ r))
      (by simp only [decide_eq_true_eq]; omega)
      (by simp only [Bool.or_eq_true, decide_eq_true_eq]; omega) (g.successors p)
    simpa only [decide_eq_true_eq] using result
  have ranged : ((List.range g.size).filter fun q => decide ((p, q) ∈ g.edges)).Pairwise
      (· ≤ ·) := List.pairwise_le_range.filter _
  refine List.Perm.eq_of_pairwise (fun a b _ _ => Nat.le_antisymm) sorted ranged ?_
  refine (List.mergeSort_perm _ _).trans ?_
  rw [List.perm_ext_iff_of_nodup (drawn.nodup_successors p) (List.nodup_range.filter _)]
  intro q
  rw [mem_successors, List.mem_filter, List.mem_range, decide_eq_true_iff]
  exact ⟨fun edge => ⟨(grown.forwards _ edge).2, edge⟩, fun h => h.2⟩

/-- The dependents of a name are, in document order, the names that list it. -/
theorem Drawn.dependents_eq (drawn : g.Drawn) (grown : g.Grown) (b : String) :
    g.dependents b = g.names.filter fun a => decide (b ∈ g.dependencies a) := by
  cases source : g.position? b with
  | none =>
    rw [dependents_unknown source, eq_comm, List.filter_eq_nil_iff]
    intro a _ lists
    -- what is listed is known
    have lists := of_decide_eq_true lists
    cases target : g.position? a with
    | none => simp [dependencies_unknown target] at lists
    | some q =>
      obtain ⟨n, here, -⟩ := grown.node_of_position target
      obtain ⟨listed, known⟩ := grown.linked q n here
      rw [dependencies_of_node target here, listed] at lists
      obtain ⟨p, position, -⟩ := known b lists
      simp [source] at position
  | some p =>
    rw [dependents, source, ← filterMap_name?, List.filter_filterMap]
    simp only [drawn.sorted_successors grown, List.filterMap_filter]
    refine List.filterMap_congr fun q _ => ?_
    cases here : g.name? q with
    | none => simp
    | some a => simp [drawn.edge_iff grown source ((grown.placed a q).mpr here), Option.filter]

/-! ## Ways along dependencies -/

/-- What a declaration lists is declared before it. -/
theorem Grown.position_lt_of_dependency (grown : g.Grown) (lists : b ∈ g.dependencies a) :
    ∃ p q, g.position? b = some p ∧ g.position? a = some q ∧ p < q := by
  cases target : g.position? a with
  | none => simp [dependencies_unknown target] at lists
  | some q =>
    obtain ⟨n, here, -⟩ := grown.node_of_position target
    obtain ⟨listed, known⟩ := grown.linked q n here
    rw [dependencies_of_node target here, listed] at lists
    obtain ⟨p, position, edge⟩ := known b lists
    exact ⟨p, q, position, rfl, (grown.forwards _ edge).1⟩

/-- A way along dependencies goes to smaller and smaller positions. -/
theorem Grown.descends (grown : g.Grown) {path : List String}
    (way : (a :: path).IsChain fun x y => y ∈ g.dependencies x) (start : g.position? a = some q) :
    path.length ≤ q ∧ ∀ b ∈ path, ∃ p, g.position? b = some p ∧ p < q := by
  induction path generalizing a q with
  | nil => simp
  | cons b path ih =>
    obtain ⟨step, way⟩ := List.isChain_cons_cons.mp way
    obtain ⟨p, q', next, here, less⟩ := grown.position_lt_of_dependency step
    obtain rfl : q' = q := Option.some.inj (here.symm.trans start)
    obtain ⟨short, smaller⟩ := ih way next
    refine ⟨Nat.lt_of_le_of_lt short less, List.forall_mem_cons.mpr ⟨⟨p, next, less⟩, ?_⟩⟩
    intro c hc
    obtain ⟨r, position, less'⟩ := smaller c hc
    exact ⟨r, position, Nat.lt_trans less' less⟩

/-- A way along dependencies ends, and never comes back to where it began. -/
theorem Grown.ends (grown : g.Grown) {path : List String}
    (way : (a :: path).IsChain fun x y => y ∈ g.dependencies x) :
    a ∉ path ∧ path.length ≤ g.size - 1 := by
  cases start : g.position? a with
  | some q =>
    obtain ⟨short, smaller⟩ := grown.descends way start
    have inside := grown.position_lt start
    refine ⟨fun again => ?_, by omega⟩
    obtain ⟨p, position, less⟩ := smaller a again
    obtain rfl : p = q := Option.some.inj (position.symm.trans start)
    exact Nat.lt_irrefl p less
  | none =>
    cases path with
    | nil => simp
    | cons b path =>
      have step := (List.isChain_cons_cons.mp way).1
      simp [dependencies_unknown start] at step

end Graph

/-! ## The answers of the tables -/

namespace Tables

variable {g : Graph}

/-- The names that refer to a declaration, by way of the vertices; nothing where that leads
beyond the end of a table. -/
def dependents (t : Tables) (name : String) : Option (List String) :=
  match t.index[name]? with
  | none => some []
  | some position => do
    let vertex ← t.nodes[position]?
    let neighbors := t.edges.filterMap fun e => if e.1 = vertex then some e.2 else none
    let positions ← neighbors.mapM (t.vertices[·]?)
    (positions.mergeSort (· ≤ ·)).mapM fun p => t.declarations[p]?.map (·.name)

/-- The names that a declaration refers to; nothing where that leads beyond the end of a
table. -/
def dependencies? (t : Tables) (name : String) : Option (List String) :=
  match t.index[name]? with
  | none => some []
  | some position => t.dependencies[position]?

/-- Looking up what is all there finds as much as looking up what there is. -/
theorem mapM_eq_filterMap {α β : Type} (f : α → Option β) {l : List α}
    (found : ∀ a ∈ l, (f a).isSome) : l.mapM f = some (l.filterMap f) := by
  induction l with
  | nil => rfl
  | cons a l ih =>
    obtain ⟨first, others⟩ := List.forall_mem_cons.mp found
    obtain ⟨b, here⟩ := Option.isSome_iff_exists.mp first
    simp [List.mapM_cons, here, ih others]

theorem dependencies?_of (grown : g.Grown) (name : String) :
    (of g).dependencies? name = some (g.dependencies name) := by
  have lookup : (of g).index[name]? = g.position? name := rfl
  rw [dependencies?, lookup]
  cases named : g.position? name with
  | none => rw [g.dependencies_unknown named]
  | some p =>
    obtain ⟨n, here, -⟩ := grown.node_of_position named
    rw [g.dependencies_of_node named here]
    simp [of, here]

theorem dependents_of (grown : g.Grown) (name : String) :
    (of g).dependents name = some (g.dependents name) := by
  have lookup : (of g).index[name]? = g.position? name := rfl
  rw [dependents, lookup, Graph.dependents]
  cases named : g.position? name with
  | none => rfl
  | some p =>
    have inside {q : Nat} (hq : q ∈ g.successors p) : q < g.size :=
      (grown.forwards _ (Graph.mem_successors.mp hq)).2
    have vertex : (of g).nodes[p]? = some p := by simp [of, grown.position_lt named]
    have vertices : (g.successors p).mapM ((of g).vertices[·]?) = some (g.successors p) := by
      rw [mapM_eq_filterMap]
      · refine congrArg some ((List.filterMap_congr fun q hq => ?_).trans List.filterMap_some)
        simp [of, inside hq]
      · intro q hq
        simp [of, inside hq]
    have shown (q : Nat) : (of g).declarations[q]?.map (·.name) = g.name? q := by
      simp [of, Graph.name?, Function.comp_def]
    have neighbors : ((of g).edges.filterMap fun e => if e.1 = p then some e.2 else none) =
      g.successors p := rfl
    simp only [vertex, Option.bind_eq_bind, Option.bind_some, neighbors, vertices, shown]
    refine mapM_eq_filterMap _ fun q hq => ?_
    have less := inside (List.mem_mergeSort.mp hq)
    rw [Graph.size] at less
    simp [Graph.name?, less]

end Tables

/-- Whatever declarations a graph was offered, `dependents` is the converse of `dependencies`: it
lists each name once and in document order. Both know nothing of a name that is not declared, and
a way along dependencies ends without meeting again where it began. The tables that were built in
place answer the same. -/
theorem Graph.dependents_converse (ds : List Declaration) :
    let g := offered ds
    (∀ a b, a ∈ g.dependents b ↔ b ∈ g.dependencies a) ∧
    (∀ b, (g.dependents b).Nodup ∧ (g.dependents b).Sublist g.names) ∧
    (∀ b ∉ g.names, g.dependents b = [] ∧ g.dependencies b = []) ∧
    (∀ a path, (a :: path).IsChain (fun x y => y ∈ g.dependencies x) →
      a ∉ path ∧ path.length ≤ g.size - 1) ∧
    ∀ b, (Tables.inserted ds).dependents b = some (g.dependents b) ∧
      (Tables.inserted ds).dependencies? b = some (g.dependencies b) := by
  intro g
  have grown : g.Grown := grown_offered ds
  have drawn : g.Drawn := drawn_offered ds
  have listed (b : String) := drawn.dependents_eq grown b
  refine ⟨fun a b => ?_, fun b => ?_, fun b unknown => ?_, fun a path way => grown.ends way,
    fun b => ?_⟩
  · rw [listed b, List.mem_filter, decide_eq_true_iff]
    refine ⟨fun h => h.2, fun lists => ⟨?_, lists⟩⟩
    obtain ⟨-, q, -, target, -⟩ := grown.position_lt_of_dependency lists
    by_contra unknown
    simp [grown.position?_eq_none.mpr unknown] at target
  · rw [listed b]
    exact ⟨grown.nodup_names.filter _, List.filter_sublist⟩
  · have unknown := grown.position?_eq_none.mpr unknown
    exact ⟨dependents_unknown unknown, dependencies_unknown unknown⟩
  · rw [Tables.inserted_eq]
    exact ⟨Tables.dependents_of grown b, Tables.dependencies?_of grown b⟩

end Pipeworks.Config
