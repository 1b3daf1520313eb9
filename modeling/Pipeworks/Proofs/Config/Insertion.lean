import Pipeworks.Config.Graph
import Mathlib.Data.List.Nodup

/-!
# Graphs made by insertion

A graph starts empty and is offered declarations one after another; one that is refused
leaves it as it was. `Grown` says what every graph made in this way is like: positions and
names determine each other, every edge leads forwards, and every reference has its edge.
-/

namespace Pipeworks.Config

/-- Induction along `List.eraseDups`: after its first name a list goes on without that name. -/
theorem eraseDups_induction {motive : List String → Prop} (nil : motive [])
    (cons : ∀ name rest, motive (rest.filter fun b => !b == name) → motive (name :: rest))
    (names : List String) : motive names := by
  generalize size : names.length = n
  induction n using Nat.strongRecOn generalizing names with
  | ind n ih =>
    cases names with
    | nil => exact nil
    | cons name rest =>
      have shorter := List.length_filter_le (fun b => !b == name) rest
      rw [List.length_cons] at size
      exact cons name rest (ih _ (by omega) _ rfl)

/-- Nothing is left twice. -/
theorem nodup_eraseDups (names : List String) : names.eraseDups.Nodup := by
  induction names using eraseDups_induction with
  | nil => simp
  | cons name rest ih =>
    rw [List.eraseDups_cons, List.nodup_cons]
    exact ⟨by simp [List.mem_eraseDups], ih⟩

namespace Graph

variable {g g' : Graph} {d : Declaration}

/-- Try to put a declaration in; a refused one changes nothing. -/
def offer (g : Graph) (d : Declaration) : Graph :=
  match g.insert d with
  | .ok g => g
  | .error _ => g

/-- The graph after declarations were offered one after another. -/
def offered (ds : List Declaration) : Graph :=
  ds.foldl offer empty

/-- What insertion keeps of a graph. -/
structure Grown (g : Graph) : Prop where
  placed : ∀ name p, g.position? name = some p ↔ g.name? p = some name
  forwards : ∀ e ∈ g.edges, e.1 < e.2 ∧ e.2 < g.size
  linked : ∀ p n, g.nodes[p]? = some n → n.dependencies = n.declaration.references ∧
    ∀ r ∈ n.declaration.references, ∃ q, g.position? r = some q ∧ (q, p) ∈ g.edges

theorem grown_empty : Grown empty where
  placed := by simp [position?, name?, empty]
  forwards := by simp [empty]
  linked := by simp [empty]

/-! ## One insertion -/

theorem positions_ok {names : List String} {ps : List Nat} (h : g.positions names = .ok ps) :
    names.map g.position? = ps.map some := by
  induction names generalizing ps with
  | nil =>
    obtain rfl := Except.ok.inj h
    rfl
  | cons name rest ih =>
    rw [positions] at h
    cases here : g.position? name with
    | none => simp [here] at h
    | some p =>
      cases more : g.positions rest with
      | error e => simp [here, more, Except.map] at h
      | ok qs =>
        simp only [here, more, Except.map, Except.ok.injEq] at h
        obtain rfl := h
        simp only [List.map_cons, here, ih more]

/-- Everything an accepted insertion does. -/
theorem insert_ok (h : g.insert d = .ok g') :
    g.position? d.name = none ∧ ∃ sources : List Nat,
      d.references.map g.position? = sources.map some ∧
      g' = { nodes := g.nodes.push ⟨d, d.references⟩
             index := g.index.insert d.name g.size
             edges := (sources.map (·, g.size)).reverse ++ g.edges } := by
  rw [insert] at h
  split at h
  · cases h
  · rename_i fresh
    split at h
    · cases h
    · rename_i sources found
      obtain rfl := Except.ok.inj h
      refine ⟨?_, sources, positions_ok found, rfl⟩
      simpa [contains] using fresh

theorem position?_insert (h : g.insert d = .ok g') (name : String) :
    g'.position? name = if d.name = name then some g.size else g.position? name := by
  obtain ⟨-, sources, -, rfl⟩ := insert_ok h
  simp [position?, Std.HashMap.getElem?_insert]

theorem node_insert (h : g.insert d = .ok g') (p : Nat) :
    g'.nodes[p]? = if p = g.size then some ⟨d, d.references⟩ else g.nodes[p]? := by
  obtain ⟨-, sources, -, rfl⟩ := insert_ok h
  exact Array.getElem?_push

theorem Grown.position_lt (grown : g.Grown) {name : String} {p : Nat}
    (h : g.position? name = some p) : p < g.size := by
  have named := (grown.placed name p).mp h
  simp only [name?, Option.map_eq_some_iff] at named
  obtain ⟨n, here, -⟩ := named
  exact (Array.getElem?_eq_some_iff.mp here).1

/-- Insertion moves no name. -/
theorem position?_kept (h : g.insert d = .ok g') {name : String} {p : Nat}
    (here : g.position? name = some p) : g'.position? name = some p := by
  have other : d.name ≠ name := by
    rintro rfl
    simp [(insert_ok h).1] at here
  rw [position?_insert h, if_neg other, here]

theorem Grown.placed_insert (grown : g.Grown) (h : g.insert d = .ok g') (name : String) (p : Nat) :
    g'.position? name = some p ↔ g'.name? p = some name := by
  have old := grown.placed name p
  rw [position?_insert h, name?, node_insert h]
  by_cases own : d.name = name
  · subst own
    by_cases last : p = g.size
    · simp [last]
    · have : ¬ g.name? p = some d.name := by simp [← old, (insert_ok h).1]
      simpa [last, Ne.symm last, name?] using this
  · by_cases last : p = g.size
    · have : ¬ g.position? name = some g.size :=
        fun here => Nat.lt_irrefl _ (grown.position_lt here)
      simpa [own, last] using this
    · simpa [own, last, name?] using old

theorem Grown.forwards_insert (grown : g.Grown) (h : g.insert d = .ok g') :
    ∀ e ∈ g'.edges, e.1 < e.2 ∧ e.2 < g'.size := by
  obtain ⟨-, sources, found, rfl⟩ := insert_ok h
  have size : (g.nodes.push ⟨d, d.references⟩).size = g.size + 1 := Array.size_push _
  intro e he
  rw [Graph.size, size]
  rcases List.mem_append.mp he with he | he
  · obtain ⟨q, hq, rfl⟩ := List.mem_map.mp (List.mem_reverse.mp he)
    have known : some q ∈ d.references.map g.position? := found ▸ List.mem_map_of_mem hq
    obtain ⟨r, -, here⟩ := List.mem_map.mp known
    exact ⟨grown.position_lt here, Nat.lt_succ_self _⟩
  · have := grown.forwards e he
    omega

theorem Grown.linked_insert (grown : g.Grown) (h : g.insert d = .ok g') (p : Nat) (n : Node)
    (here : g'.nodes[p]? = some n) : n.dependencies = n.declaration.references ∧
      ∀ r ∈ n.declaration.references, ∃ q, g'.position? r = some q ∧ (q, p) ∈ g'.edges := by
  obtain ⟨-, sources, found, shape⟩ := insert_ok h
  have edges : g'.edges = (sources.map (·, g.size)).reverse ++ g.edges := by rw [shape]
  rw [node_insert h] at here
  split at here
  · rename_i last
    obtain rfl := Option.some.inj here
    refine ⟨rfl, fun r hr => ?_⟩
    have known : g.position? r ∈ sources.map some := found ▸ List.mem_map_of_mem hr
    obtain ⟨q, hq, position⟩ := List.mem_map.mp known
    refine ⟨q, position?_kept h position.symm, ?_⟩
    rw [edges, last]
    exact List.mem_append_left _ (List.mem_reverse.mpr (List.mem_map_of_mem hq))
  · obtain ⟨listed, known⟩ := grown.linked p n here
    refine ⟨listed, fun r hr => ?_⟩
    obtain ⟨q, position, edge⟩ := known r hr
    refine ⟨q, position?_kept h position, ?_⟩
    rw [edges]
    exact List.mem_append_right _ edge

theorem Grown.insert (grown : g.Grown) (h : g.insert d = .ok g') : g'.Grown :=
  ⟨grown.placed_insert h, grown.forwards_insert h, grown.linked_insert h⟩

/-- What holds of the empty graph and is kept by insertion holds of every graph that was offered
declarations. -/
theorem offered_induction {P : Graph → Prop} (start : P empty)
    (step : ∀ {g d g'}, P g → g.insert d = .ok g' → P g') (ds : List Declaration) :
    P (offered ds) := by
  rw [offered]
  suffices ∀ g : Graph, P g → P (ds.foldl offer g) from this empty start
  induction ds with
  | nil => exact fun _ kept => kept
  | cons d ds ih =>
    intro g kept
    refine ih (g.offer d) ?_
    rw [offer]
    split
    · exact step kept ‹_›
    · exact kept

/-- A graph that was offered any declarations is grown. -/
theorem grown_offered (ds : List Declaration) : (offered ds).Grown :=
  offered_induction grown_empty (fun grown h => grown.insert h) ds

/-! ## Names and references -/

theorem getElem?_names (g : Graph) (p : Nat) : g.names[p]? = g.name? p := by
  simp [names, declarations, name?, Function.comp_def]

theorem Grown.nodup_names (grown : g.Grown) : g.names.Nodup := by
  rw [List.nodup_iff_getElem?_ne_getElem?]
  intro p q before inside same
  rw [getElem?_names, getElem?_names] at same
  obtain ⟨name, here⟩ : ∃ name, g.name? q = some name := by
    rw [← getElem?_names]
    exact ⟨_, List.getElem?_eq_getElem inside⟩
  have first := (grown.placed name p).mpr (same.trans here)
  have second := (grown.placed name q).mpr here
  have : p = q := Option.some.inj (first.symm.trans second)
  omega

/-- What a declaration refers to is declared before it, and an edge leads to it. -/
theorem Grown.reference (grown : g.Grown) (hd : d ∈ g.declarations) {r : String}
    (hr : r ∈ d.references) :
    ∃ p q, g.name? p = some d.name ∧ g.name? q = some r ∧ (q, p) ∈ g.edges := by
  obtain ⟨n, hn, rfl⟩ := List.mem_map.mp hd
  obtain ⟨p, here⟩ := List.getElem?_of_mem hn
  rw [Array.getElem?_toList] at here
  obtain ⟨-, known⟩ := grown.linked p n here
  obtain ⟨q, position, edge⟩ := known r hr
  exact ⟨p, q, by rw [name?, here, Option.map_some], (grown.placed r q).mp position, edge⟩

/-! ## Edges -/

/-- Every edge is there once, and there for a reference. -/
structure Drawn (g : Graph) : Prop where
  once : g.edges.Nodup
  meant : ∀ q p, (q, p) ∈ g.edges →
    ∃ n r, g.nodes[p]? = some n ∧ r ∈ n.dependencies ∧ g.position? r = some q

theorem drawn_empty : Drawn empty where
  once := List.nodup_nil
  meant := by simp [empty]

/-- Different names have different positions. -/
theorem Grown.nodup_positions (grown : g.Grown) {names : List String} {ps : List Nat}
    (distinct : names.Nodup) (found : names.map g.position? = ps.map some) : ps.Nodup := by
  refine List.Nodup.of_map some ?_
  rw [← found]
  refine distinct.map_on fun a ha b _ same => ?_
  have known : g.position? a ∈ ps.map some := found ▸ List.mem_map_of_mem ha
  obtain ⟨p, -, here⟩ := List.mem_map.mp known
  have first := (grown.placed a p).mp here.symm
  have second := (grown.placed b p).mp (same ▸ here.symm)
  exact Option.some.inj (first.symm.trans second)

theorem Drawn.insert (drawn : g.Drawn) (grown : g.Grown) (h : g.insert d = .ok g') :
    g'.Drawn := by
  obtain ⟨-, sources, found, shape⟩ := insert_ok h
  have edges : g'.edges = (sources.map (·, g.size)).reverse ++ g.edges := by rw [shape]
  constructor
  · rw [edges, List.nodup_append]
    refine ⟨?_, drawn.once, ?_⟩
    · rw [List.nodup_reverse]
      exact (grown.nodup_positions (nodup_eraseDups _) found).map fun p q same =>
        (Prod.mk.inj same).1
    · intro e new f old same
      subst same
      obtain ⟨q, -, rfl⟩ := List.mem_map.mp (List.mem_reverse.mp new)
      exact Nat.lt_irrefl _ (grown.forwards _ old).2
  · intro q p edge
    rw [edges, List.mem_append, List.mem_reverse, List.mem_map] at edge
    rw [node_insert h]
    rcases edge with ⟨s, hs, same⟩ | old
    · obtain ⟨rfl, rfl⟩ := Prod.mk.inj same
      have known : some s ∈ d.references.map g.position? := found ▸ List.mem_map_of_mem hs
      obtain ⟨r, hr, here⟩ := List.mem_map.mp known
      exact ⟨_, r, if_pos rfl, hr, position?_kept h here⟩
    · obtain ⟨n, r, here, hr, position⟩ := drawn.meant q p old
      have inside := (grown.forwards _ old).2
      exact ⟨n, r, by rw [if_neg (Nat.ne_of_lt inside), here], hr, position?_kept h position⟩

theorem drawn_offered (ds : List Declaration) : (offered ds).Drawn := by
  refine (offered_induction (P := fun g => g.Grown ∧ g.Drawn) ⟨grown_empty, drawn_empty⟩ ?_ ds).2
  rintro g d g' ⟨grown, drawn⟩ h
  exact ⟨grown.insert h, drawn.insert grown h⟩

/-- The edges are those from a dependency to a dependent. -/
theorem Drawn.mem_edges (drawn : g.Drawn) (grown : g.Grown) (q p : Nat) :
    (q, p) ∈ g.edges ↔ ∃ n r, g.nodes[p]? = some n ∧ r ∈ n.dependencies ∧
      g.position? r = some q := by
  refine ⟨drawn.meant q p, ?_⟩
  rintro ⟨n, r, here, hr, position⟩
  obtain ⟨listed, known⟩ := grown.linked p n here
  obtain ⟨q', position', edge⟩ := known r (listed ▸ hr)
  obtain rfl : q' = q := Option.some.inj (position'.symm.trans position)
  exact edge

/-! ## What is refused -/

theorem Grown.contains_iff (grown : g.Grown) (name : String) :
    g.contains name = true ↔ name ∈ g.names := by
  rw [contains, Option.isSome_iff_exists, List.mem_iff_getElem?]
  exact exists_congr fun p => by rw [grown.placed, getElem?_names]

/-- The first of some names that is not declared makes the search for their positions fail. -/
theorem positions_eq (g : Graph) (names : List String) :
    match names.find? (!g.contains ·) with
    | some name => g.positions names = .error name
    | none => ∃ ps, g.positions names = .ok ps := by
  induction names with
  | nil => exact ⟨[], rfl⟩
  | cons name rest ih =>
    cases here : g.position? name with
    | none => simp [contains, here, positions]
    | some p =>
      have known : (!g.contains name) = false := by simp [contains, here]
      rw [List.find?_cons_of_neg (by simp [known]), positions, here]
      cases first : rest.find? (!g.contains ·) with
      | some name =>
        rw [first] at ih
        exact congrArg (Except.map _) ih
      | none =>
        rw [first] at ih
        obtain ⟨ps, found⟩ := ih
        exact ⟨p :: ps, congrArg (Except.map _) found⟩

/-- What insertion comes to: a taken name is refused first, then the first reference to a name
that is not there. -/
inductive Insertion (g : Graph) (d : Declaration) : Except Fault Graph → Prop where
  | taken (there : d.name ∈ g.names) : Insertion g d (.error (.forbiddenName d.name .duplicate))
  | missing {r : String} (fresh : d.name ∉ g.names)
      (first : d.references.find? (· ∉ g.names) = some r) :
      Insertion g d (.error (.unresolvedReference r d.name))
  | accepted {next : Graph} (fresh : d.name ∉ g.names) (known : ∀ r ∈ d.references, r ∈ g.names)
      (ok : g.insert d = .ok next) : Insertion g d (.ok next)

theorem Grown.insertion (grown : g.Grown) (d : Declaration) : Insertion g d (g.insert d) := by
  have absent : (!g.contains ·) = fun r => decide (r ∉ g.names) := by
    funext r
    rw [Bool.eq_iff_iff, Bool.not_eq_true', ← Bool.not_eq_true, grown.contains_iff,
      decide_eq_true_iff]
  have positions := g.positions_eq d.references
  rw [absent] at positions
  by_cases there : d.name ∈ g.names
  · rw [Graph.insert, if_pos ((grown.contains_iff _).mpr there)]
    exact .taken there
  · have fresh : ¬ g.contains d.name = true := fun h => there ((grown.contains_iff _).mp h)
    cases first : d.references.find? (· ∉ g.names) with
    | some r =>
      rw [first] at positions
      rw [Graph.insert, if_neg fresh, positions]
      exact .missing there first
    | none =>
      rw [first] at positions
      obtain ⟨sources, found⟩ := positions
      have known : ∀ r ∈ d.references, r ∈ g.names := by
        simpa using List.find?_eq_none.mp first
      cases result : g.insert d with
      | ok g' => exact .accepted there known result
      | error e => simp [Graph.insert, fresh, found] at result

end Graph

end Pipeworks.Config
