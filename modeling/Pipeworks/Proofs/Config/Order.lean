import Pipeworks.Proofs.Config.Insertion

/-!
# The order that a search finds

The search keeps a stack on which one position may stand several times. What carries
the argument is where an open position stands, one that is discovered and not yet
finished: everything above it on the stack is greater, because edges lead forwards, and
each of its successors is finished or above it. So when an open position comes to the
top again, all its successors are finished, and it may be put in front of them.
-/

namespace Pipeworks.Config

namespace Graph

variable {g : Graph} {s : Search} {stack : List Nat}

/-- Every position in a list stands before its successors. -/
def Layered (g : Graph) : List Nat → Prop
  | [] => True
  | p :: rest => (∀ q ∈ g.successors p, q ∈ rest) ∧ g.Layered rest

/-- What holds of a search with its stack between two steps. -/
structure Searching (g : Graph) (s : Search) (stack : List Nat) : Prop where
  nodup : s.finished.Nodup
  discovered : ∀ p ∈ s.finished, p ∈ s.discovered
  inside : ∀ p ∈ s.discovered, p < g.size
  layered : g.Layered s.finished
  opened : ∀ p ∈ s.discovered, p ∉ s.finished → ∃ above below, stack = above ++ p :: below ∧
    (∀ q ∈ above, p < q) ∧ ∀ q ∈ g.successors p, q ∈ s.finished ∨ q ∈ above

theorem mem_successors {p q : Nat} : q ∈ g.successors p ↔ (p, q) ∈ g.edges := by
  simp only [successors, List.mem_filterMap, Option.ite_none_right_eq_some, Option.some.injEq]
  constructor
  · rintro ⟨e, he, rfl, rfl⟩
    exact he
  · intro he
    exact ⟨_, he, rfl, rfl⟩

theorem Grown.lt_successor (grown : g.Grown) {p q : Nat} (h : q ∈ g.successors p) :
    p < q ∧ q < g.size :=
  grown.forwards _ (mem_successors.mp h)

/-- An open position below the top is less than the top, which counts among what stands
above it. -/
theorem Searching.under {p q : Nat} (searching : g.Searching s (p :: stack))
    (hq : q ∈ s.discovered) (unfinished : q ∉ s.finished) (other : q ≠ p) :
    ∃ above below, stack = above ++ q :: below ∧ q < p ∧ (∀ x ∈ above, q < x) ∧
      ∀ x ∈ g.successors q, x ∈ s.finished ∨ x ∈ p :: above := by
  obtain ⟨above, below, shape, greater, successors⟩ := searching.opened q hq unfinished
  cases above with
  | nil => exact absurd (List.cons.inj shape).1.symm other
  | cons top above =>
    obtain ⟨rfl, rfl⟩ := List.cons.inj shape
    obtain ⟨less, greater⟩ := List.forall_mem_cons.mp greater
    exact ⟨above, below, rfl, less, greater, successors⟩

/-- Nothing stands above the top, so the successors of an open top are finished. -/
theorem Searching.ready {p : Nat} (searching : g.Searching s (p :: stack))
    (hp : p ∈ s.discovered) (unfinished : p ∉ s.finished) :
    ∀ q ∈ g.successors p, q ∈ s.finished := by
  obtain ⟨above, below, shape, greater, successors⟩ := searching.opened p hp unfinished
  cases above with
  | nil => simpa using successors
  | cons top above =>
    obtain ⟨rfl, -⟩ := List.cons.inj shape
    exact absurd (greater p (List.mem_cons_self ..)) (Nat.lt_irrefl p)

/-- What is open below the top stays open when the top is taken off, provided that it is
finished then. -/
theorem Searching.opened_tail {p : Nat} (searching : g.Searching s (p :: stack))
    {finished : List Nat} (top : p ∈ finished) (more : s.finished ⊆ finished) {q : Nat}
    (hq : q ∈ s.discovered) (unfinished : q ∉ finished) :
    ∃ above below, stack = above ++ q :: below ∧ (∀ x ∈ above, q < x) ∧
      ∀ x ∈ g.successors q, x ∈ finished ∨ x ∈ above := by
  have other : q ≠ p := by
    rintro rfl
    exact unfinished top
  obtain ⟨above, below, shape, -, greater, successors⟩ :=
    searching.under hq (mt (@more q) unfinished) other
  refine ⟨above, below, shape, greater, ?_⟩
  intro x hx
  rcases successors x hx with done | here
  · exact .inl (more done)
  · rcases List.mem_cons.mp here with rfl | here
    · exact .inl top
    · exact .inr here

/-- A position is finished when it is found on the top again; that it was finished
before is no harm. -/
theorem Searching.finish {p : Nat} (searching : g.Searching s (p :: stack))
    (found : p ∈ s.discovered) :
    g.Searching { s with finished := if s.finished.contains p then s.finished else p :: s.finished }
      stack := by
  by_cases before : p ∈ s.finished
  · rw [if_pos (List.contains_iff_mem.mpr before)]
    exact { searching with
      opened := fun _ hq => searching.opened_tail before (List.Subset.refl _) hq }
  · rw [if_neg (by simpa using before)]
    constructor
    · exact List.nodup_cons.mpr ⟨before, searching.nodup⟩
    · exact List.forall_mem_cons.mpr ⟨found, searching.discovered⟩
    · exact searching.inside
    · exact ⟨searching.ready found before, searching.layered⟩
    · intro q hq unfinished
      exact searching.opened_tail (List.mem_cons_self ..) (List.subset_cons_self ..) hq unfinished

/-- A position that is new on the top is discovered, and its undiscovered successors go on
top of it. A successor discovered before cannot be open: it would stand below and be less. -/
theorem Searching.discover (grown : g.Grown) {p : Nat} (searching : g.Searching s (p :: stack))
    (new : p ∉ s.discovered) (inside : p < g.size) :
    g.Searching { s with discovered := p :: s.discovered }
      (((g.successors p).filter (!(p :: s.discovered).contains ·)).reverse ++ p :: stack) := by
  have pushed {x : Nat} (hx : x ∈ ((g.successors p).filter
      (!(p :: s.discovered).contains ·)).reverse) : p < x := by
    rw [List.mem_reverse, List.mem_filter] at hx
    exact (grown.lt_successor hx.1).1
  have other {q : Nat} (hq : q ∈ s.discovered) : q ≠ p := by
    rintro rfl
    exact new hq
  constructor
  · exact searching.nodup
  · exact fun q hq => List.mem_cons_of_mem _ (searching.discovered q hq)
  · exact List.forall_mem_cons.mpr ⟨inside, searching.inside⟩
  · exact searching.layered
  · intro q hq unfinished
    rcases List.mem_cons.mp hq with rfl | hq
    · refine ⟨_, stack, rfl, fun x hx => pushed hx, ?_⟩
      intro x hx
      have less : q < x := (grown.lt_successor hx).1
      by_cases known : x ∈ s.discovered
      · by_cases done : x ∈ s.finished
        · exact .inl done
        · obtain ⟨above, below, -, below', -⟩ := searching.under known done (other known)
          omega
      · refine .inr (List.mem_reverse.mpr (List.mem_filter.mpr ⟨hx, ?_⟩))
        have : x ≠ q := by omega
        simp [known, this]
    · obtain ⟨above, below, rfl, less, greater, successors⟩ :=
        searching.under hq unfinished (other hq)
      refine ⟨_ ++ p :: above, below, (List.append_assoc _ (p :: above) _).symm, ?_, ?_⟩
      · intro x hx
        rcases List.mem_append.mp hx with hx | hx
        · have := pushed hx
          omega
        · rcases List.mem_cons.mp hx with rfl | hx
          · exact less
          · exact greater x hx
      · intro x hx
        exact (successors x hx).imp_right (List.mem_append_right _)

/-- Searching until the stack is empty keeps what holds of a search, forgets nothing that
was discovered, and discovers all that was on the stack. -/
theorem Searching.explore (grown : g.Grown) (searching : g.Searching s stack)
    (within : ∀ p ∈ stack, p < g.size) :
    g.Searching (g.explore s stack) [] ∧ s.discovered ⊆ (g.explore s stack).discovered ∧
      stack ⊆ (g.explore s stack).discovered := by
  fun_induction Graph.explore g s stack with
  | case1 s => exact ⟨searching, List.Subset.refl _, List.nil_subset _⟩
  | case2 s p rest found ih =>
    rw [List.contains_iff_mem] at found
    obtain ⟨ended, kept, seen⟩ := ih (searching.finish found) (List.forall_mem_cons.mp within).2
    exact ⟨ended, kept, List.cons_subset.mpr ⟨kept found, seen⟩⟩
  | case3 s p rest new inside discovered next ih =>
    rw [List.contains_iff_mem] at new
    have within' : ∀ q ∈ next.reverse ++ p :: rest, q < g.size := by
      intro q hq
      rcases List.mem_append.mp hq with hq | hq
      · exact (grown.lt_successor (List.mem_filter.mp (List.mem_reverse.mp hq)).1).2
      · exact within q hq
    obtain ⟨ended, kept, seen⟩ := ih (searching.discover grown new inside) within'
    exact ⟨ended, (List.cons_subset.mp kept).2, (List.append_subset.mp seen).2⟩
  | case4 s p rest new outside ih =>
    exact absurd (within p (List.mem_cons_self ..)) outside

/-- Where nothing is on the stack, everything discovered is finished. -/
theorem Searching.finished (searching : g.Searching s []) {p : Nat} (hp : p ∈ s.discovered) :
    p ∈ s.finished := by
  by_contra unfinished
  obtain ⟨above, below, shape, -⟩ := searching.opened p hp unfinished
  simp at shape

/-- A search that has ended may go on from any position. -/
theorem Searching.restart (searching : g.Searching s []) (p : Nat) : g.Searching s [p] :=
  { searching with
    opened := fun _ hq unfinished => absurd (searching.finished hq) unfinished }

theorem searching_search (grown : g.Grown) :
    g.Searching g.search [] ∧ ∀ p < g.size, p ∈ g.search.discovered := by
  rw [search]
  suffices ∀ (ps : List Nat) (s : Search), (∀ p ∈ ps, p < g.size) → g.Searching s [] →
      let s' := ps.foldl
        (fun s p => if s.discovered.contains p then s else g.explore s [p]) s
      g.Searching s' [] ∧ s.discovered ⊆ s'.discovered ∧ ps ⊆ s'.discovered by
    obtain ⟨ended, -, all⟩ := this (List.range g.size) ⟨[], []⟩ (fun p hp => List.mem_range.mp hp)
      ⟨List.nodup_nil, by simp, by simp, trivial, by simp⟩
    exact ⟨ended, fun p hp => all (List.mem_range.mpr hp)⟩
  intro ps
  induction ps with
  | nil => exact fun s _ searching => ⟨searching, List.Subset.refl _, List.nil_subset _⟩
  | cons p ps ih =>
    intro s within searching
    obtain ⟨first, later⟩ := List.forall_mem_cons.mp within
    rw [List.foldl_cons]
    split
    · rename_i found
      rw [List.contains_iff_mem] at found
      obtain ⟨ended, kept, seen⟩ := ih s later searching
      exact ⟨ended, kept, List.cons_subset.mpr ⟨kept found, seen⟩⟩
    · obtain ⟨after, kept, found⟩ := (searching.restart p).explore grown (by simpa using first)
      obtain ⟨ended, kept', seen⟩ := ih _ later after
      refine ⟨ended, List.Subset.trans kept kept', List.cons_subset.mpr ⟨?_, seen⟩⟩
      exact kept' (found (List.mem_singleton_self p))

/-! ## The order -/

/-- A search finishes every position exactly once. -/
theorem perm_finished (grown : g.Grown) : g.search.finished.Perm (List.range g.size) := by
  obtain ⟨ended, all⟩ := searching_search grown
  rw [List.perm_ext_iff_of_nodup ended.nodup List.nodup_range]
  intro p
  rw [List.mem_range]
  exact ⟨fun hp => ended.inside p (ended.discovered p hp), fun hp => ended.finished (all p hp)⟩

theorem Layered.sublist {order : List Nat} (layered : g.Layered order) {p q : Nat}
    (hp : p ∈ order) (hq : q ∈ g.successors p) : [p, q].Sublist order := by
  induction order with
  | nil => exact absurd hp List.not_mem_nil
  | cons first rest ih =>
    obtain ⟨front, layered⟩ := layered
    rcases List.mem_cons.mp hp with rfl | hp
    · exact (List.singleton_sublist.mpr (front q hq)).cons_cons p
    · exact (ih layered hp).cons first

theorem idxOf_lt_of_sublist {order : List Nat} (nodup : order.Nodup) {p q : Nat}
    (before : [p, q].Sublist order) : order.idxOf p < order.idxOf q := by
  induction order with
  | nil => simp at before
  | cons first rest ih =>
    obtain ⟨fresh, nodup⟩ := List.nodup_cons.mp nodup
    have later {x : Nat} (hx : x ∈ rest) : (first :: rest).idxOf x = rest.idxOf x + 1 :=
      List.idxOf_cons_ne _ fun same => fresh (same ▸ hx)
    rcases List.sublist_cons_iff.mp before with before | ⟨tail, shape, before⟩
    · have := ih nodup before
      rw [later (before.subset (by simp)), later (before.subset (by simp))]
      omega
    · obtain ⟨rfl, rfl⟩ := List.cons.inj shape
      rw [List.idxOf_cons_self, later (List.singleton_sublist.mp before)]
      omega

/-- An edge leads forwards in the order that the search finds. -/
theorem edge_sublist (grown : g.Grown) {e : Nat × Nat} (he : e ∈ g.edges) :
    [e.1, e.2].Sublist g.search.finished := by
  have inside := grown.forwards e he
  have found : e.1 ∈ g.search.finished :=
    (perm_finished grown).mem_iff.mpr (List.mem_range.mpr (by omega))
  exact (searching_search grown).1.layered.sublist found (mem_successors.mpr he)

theorem order_eq (grown : g.Grown) : g.order = .ok (g.search.finished.filterMap g.name?) := by
  have respects : g.respects g.search.finished = true := by
    rw [Graph.respects, List.all_eq_true]
    intro e he
    exact decide_eq_true (idxOf_lt_of_sublist (searching_search grown).1.nodup
      (edge_sublist grown he))
  rw [order, if_pos respects]

theorem filterMap_name? (g : Graph) : (List.range g.size).filterMap g.name? = g.names := by
  have named : g.name? = fun p => g.names[p]? := funext fun p => (getElem?_names g p).symm
  have size : g.size = g.names.length := by simp [names, declarations, Graph.size]
  rw [named, size]
  generalize g.names = names
  induction names with
  | nil => rfl
  | cons name names ih =>
    rw [List.length_cons, List.range_succ_eq_map, List.filterMap_cons, List.filterMap_map]
    simpa [Function.comp_def] using ih

/-- Whatever declarations a graph was offered, an order of its names is found: every
declared name stands in it once, after all the names that its declaration refers to. -/
theorem order_topological (ds : List Declaration) :
    ∃ order, (offered ds).order = .ok order ∧ order.Nodup ∧ order.Perm (offered ds).names ∧
      ∀ d ∈ (offered ds).declarations, ∀ r ∈ Value.entryReferencesRec d.block,
        [r, d.name].Sublist order := by
  have grown := grown_offered ds
  generalize offered ds = g at grown
  have perm : (g.search.finished.filterMap g.name?).Perm g.names := by
    rw [← filterMap_name?]
    exact (perm_finished grown).filterMap _
  refine ⟨_, order_eq grown, perm.nodup_iff.mpr grown.nodup_names, perm, ?_⟩
  intro d hd r hr
  obtain ⟨p, q, own, other, edge⟩ := grown.reference hd (Declaration.mem_references.mpr hr)
  have before := (edge_sublist grown edge).filterMap g.name?
  simpa only [List.filterMap_cons, own, other, List.filterMap_nil] using before

end Graph

end Pipeworks.Config
