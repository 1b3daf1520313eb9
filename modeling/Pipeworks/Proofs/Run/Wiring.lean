import Pipeworks.Proofs.Config.Converse
import Pipeworks.Proofs.Config.Resolution
import Pipeworks.Proofs.Run.Making
import Pipeworks.Proofs.Run.Rendering

/-!
# References lead to instances

Every declaration refers to earlier ones only, and building goes in document order. So when a
constructor is called, whatever its block refers to was built before, except for declarations of
the bus, which are never built. The options of the call hand out these very components, and its
entry in the context depends on just them.
-/

namespace Pipeworks

open Config Making

variable {σ : Type}

/-! ## Names of components -/

/-- In a list without repetition, what stands before a member is in front of its position. -/
theorem mem_take_of_pair {names : List String} (nodup : names.Nodup) {a b : String} {i : Nat}
    (here : names[i]? = some b) (pair : [a, b].Sublist names) : a ∈ names.take i := by
  induction names generalizing i with
  | nil => simp at here
  | cons name rest ih =>
    obtain ⟨fresh, nodup⟩ := List.nodup_cons.mp nodup
    cases i with
    | zero =>
      obtain rfl : name = b := by simpa using here
      cases pair with
      | cons _ later => exact absurd (later.subset (by simp)) fresh
      | cons_cons _ later => exact absurd (later.subset (by simp)) fresh
    | succ i =>
      rw [List.getElem?_cons_succ] at here
      rw [List.take_succ_cons]
      cases pair with
      | cons _ later => exact List.mem_cons_of_mem _ (ih nodup here later)
      | cons_cons _ later => exact List.mem_cons_self

namespace Config.Graph

variable {g : Graph} {d : Declaration} {r : String}

/-- The names of the declarations of the bus. -/
def busNames (g : Graph) : List String := (g.ofKind busKind).map (·.name)

theorem Grown.dependencies_eq (grown : g.Grown) (declared : d ∈ g.declarations) :
    g.dependencies d.name = d.references := by
  obtain ⟨n, hn, rfl⟩ := List.mem_map.mp declared
  obtain ⟨p, here⟩ := List.getElem?_of_mem hn
  rw [Array.getElem?_toList] at here
  have position : g.position? n.declaration.name = some p :=
    (grown.placed _ p).mpr (by rw [name?, here, Option.map_some])
  rw [dependencies_of_node position here, (grown.linked p n here).1]

theorem components_sublist (g : Graph) : (g.components.map (·.name)).Sublist g.names :=
  List.filter_sublist.map _

theorem Grown.nodup_components (grown : g.Grown) : (g.components.map (·.name)).Nodup :=
  g.components_sublist.nodup grown.nodup_names

theorem Grown.not_component (grown : g.Grown) (bus : r ∈ g.busNames) :
    r ∉ g.components.map (·.name) := by
  intro component
  obtain ⟨b, hb, rfl⟩ := List.mem_map.mp bus
  obtain ⟨c, hc, same⟩ := List.mem_map.mp component
  obtain ⟨hb, busKind⟩ := List.mem_filter.mp hb
  obtain ⟨hc, other⟩ := List.mem_filter.mp hc
  obtain rfl := List.inj_on_of_nodup_map grown.nodup_names hc hb same
  simp_all

/-- What a component refers to is a bus or stands before it among the components. -/
theorem Grown.reference_component (grown : g.Grown) {i : Nat} (here : g.components[i]? = some d)
    (refers : r ∈ d.references) (other : r ∉ g.busNames) :
    r ∈ (g.components.take i).map (·.name) := by
  have component : d ∈ g.components := List.mem_of_getElem? here
  have pair := grown.reference_sublist (List.mem_filter.mp component).1 refers
  have built : r ∈ g.components.map (·.name) := by
    obtain ⟨d', hd', rfl⟩ := List.mem_map.mp (pair.subset (List.mem_cons_self ..))
    refine List.mem_map_of_mem (List.mem_filter.mpr ⟨hd', ?_⟩)
    by_contra bus
    exact other (List.mem_map_of_mem (List.mem_filter.mpr ⟨hd', by simpa using bus⟩))
  rw [List.map_take]
  refine mem_take_of_pair grown.nodup_components (by rw [List.getElem?_map, here]; rfl) ?_
  exact pair_sublist grown.nodup_names g.components_sublist pair built
    (List.mem_map_of_mem component)

end Config.Graph

/-! ## One call -/

/-- The constructor that is used for a kind and a type: that of the type itself if there is one,
else that of the whole kind. -/
inductive Registry.Chooses (registry : Registry σ) (kind type : String)
    (construct : Constructor σ) : Prop where
  | exact (registered : registry.constructors.lookup (kind, type) = some construct)
  | wildcard (unregistered : registry.constructors.lookup (kind, type) = none)
      (registered : registry.constructors.lookup (kind, anyType) = some construct)

theorem Registry.chooses_of_find? {registry : Registry σ} {kind type : String}
    {construct : Constructor σ} (found : registry.find? kind type = some construct) :
    registry.Chooses kind type construct := by
  rw [find?] at found
  cases registered : registry.constructors.lookup (kind, type) with
  | some other =>
    rw [registered] at found
    exact .exact (registered.trans found)
  | none =>
    rw [registered] at found
    exact .wildcard registered found

/-- A call is the next after some others, when some components had been built before all. -/
structure Making.Next (g : Graph) (registry : Registry σ) (built : Built σ) (world : σ)
    (before : List (Making σ)) (m : Making σ) : Prop where
  found : registry.find? m.declaration.kind m.declaration.type = some m.construct
  options : m.options = optionsOf g (entries before ++ built) m.declaration
  world : m.world = worldAfter world before
  given : ∀ m' ∈ before, m'.made?.isSome

theorem next_of_makings {g : Graph} {registry : Registry σ} {built : Built σ} {world : σ}
    {ds : List Declaration} {i : Nat} {m : Making σ}
    (here : (makings g registry built world ds)[i]? = some m) :
    Making.Next g registry built world ((makings g registry built world ds).take i) m := by
  -- The first call of the rest finds one more component built, so `built` varies.
  induction ds generalizing built world i with
  | nil => simp [makings] at here
  | cons d ds ih =>
    cases found : registry.find? d.kind d.type with
    | none => simp [makings_unknown found] at here
    | some construct =>
      have first : Making.Next g registry built world [] (.of g built world d construct) :=
        ⟨found, rfl, rfl, by simp⟩
      cases made : (Making.of g built world d construct).made? with
      | none =>
        rw [makings_last found made] at here ⊢
        obtain ⟨rfl, rfl⟩ : i = 0 ∧ .of g built world d construct = m := by
          simpa [List.getElem?_singleton] using here
        exact first
      | some e =>
        rw [makings_cons found made] at here ⊢
        cases i with
        | zero =>
          obtain rfl : .of g built world d construct = m := by simpa using here
          exact first
        | succ i =>
          have next := ih here
          refine ⟨next.found, ?_, next.world, ?_⟩
          · rw [next.options, List.take_succ_cons, entries_cons_some made, List.append_assoc]
            rfl
          · rw [List.take_succ_cons]
            exact List.forall_mem_cons.mpr ⟨by rw [made]; rfl, next.given⟩

/-! ## References in a call -/

/-- One of some calls gave this component for a name. -/
def Given (before : List (Making σ)) (name : String) (c : Component σ) : Prop :=
  ∃ m ∈ before, m.declaration.name = name ∧ m.component? = some c

theorem mem_entries {before : List (Making σ)} {e : Entry σ} :
    e ∈ entries before ↔ ∃ m ∈ before, m.made? = some e := by
  rw [entries, List.mem_reverse, List.mem_filterMap]

theorem given_of_find? {before : List (Making σ)} {name : String} {e : Entry σ}
    (found : Context.find? (entries before) name = some e) : Given before name e.component := by
  obtain ⟨m, hm, made⟩ := mem_entries.mp (List.mem_of_find?_eq_some found)
  obtain ⟨c, component, rfl⟩ := of_made? made
  exact ⟨m, hm, by simpa [Entry.fresh] using List.find?_some found, component⟩

theorem found_iff_called {before : List (Making σ)} (given : ∀ m ∈ before, m.made?.isSome)
    (name : String) : (Context.find? (entries before) name).isSome ↔
      name ∈ before.map (·.declaration.name) := by
  constructor
  · intro found
    obtain ⟨e, found⟩ := Option.isSome_iff_exists.mp found
    obtain ⟨m, hm, same, -⟩ := given_of_find? found
    exact List.mem_map.mpr ⟨m, hm, same⟩
  · intro called
    obtain ⟨m, hm, rfl⟩ := List.mem_map.mp called
    obtain ⟨e, made⟩ := Option.isSome_iff_exists.mp (given m hm)
    rw [Context.find?, List.find?_isSome]
    refine ⟨e, mem_entries.mpr ⟨m, hm, made⟩, ?_⟩
    obtain ⟨c, -, rfl⟩ := of_made? made
    simp [Entry.fresh]

/-- What a reference comes to in a call: a component that was given before, or nothing if it is to
a bus. -/
inductive PointsTo (g : Graph) (before : List (Making σ)) (r : String) :
    Except Fault (Component σ) → Prop where
  | built {c : Component σ} (other : r ∉ g.busNames) (given : Given before r c) :
      PointsTo g before r (.ok c)
  | bus (bus : r ∈ g.busNames) : PointsTo g before r (.error (.notFound "component instance" r))

/-- What a list of references comes to in a call, up to the first that leads nowhere. -/
inductive Followed (g : Graph) (before : List (Making σ)) (other : Fault) :
    List Value → Except Fault (List (Component σ)) → Prop where
  | nil : Followed g before other [] (.ok [])
  | reference {r c vs cs} (points : PointsTo g before r (.ok c))
      (rest : Followed g before other vs cs) :
      Followed g before other (.reference r :: vs) (cs.map (c :: ·))
  | bus {r e vs} (points : PointsTo g before r (.error e)) :
      Followed g before other (.reference r :: vs) (.error e)
  | other {v vs} (none : v.reference? = none) : Followed g before other (v :: vs) (.error other)

/-- The live components are looked up where they were found. -/
theorem lookup_live {α β : Type} (find : String → Option α) (f : α → β) (names : List String)
    (r : String) : (names.filterMap fun n => (find n).map fun a => (n, f a)).lookup r =
      if r ∈ names then (find r).map f else none := by
  induction names with
  | nil => rfl
  | cons n rest ih =>
    by_cases same : r = n
    · subst same
      cases found : find r with
      | none => simp [found, ih]
      | some a => simp [found]
    · cases found : find n with
      | none => simp [found, ih, same]
      | some a => simp [found, ih, same, List.lookup_cons, beq_eq_false_iff_ne.mpr same]

/-- Live components are kept for the names under which something was found. -/
theorem map_fst_live {α β : Type} (find : String → Option α) (f : α → β) (names : List String) :
    (names.filterMap fun n => (find n).map fun a => (n, f a)).map (·.1) =
      names.filter fun n => (find n).isSome := by
  induction names with
  | nil => rfl
  | cons n rest ih => cases found : find n <;> simp [found, ih]

/-- A call finds what its declaration refers to among the components that were built before it,
buses apart. -/
structure Prepared (g : Graph) (before : List (Making σ)) (m : Making σ) : Prop where
  declared : m.declaration ∈ g.declarations
  options : m.options = optionsOf g (entries before) m.declaration
  given : ∀ m' ∈ before, m'.made?.isSome
  known : ∀ r ∈ m.declaration.references,
    r ∈ before.map (·.declaration.name) ↔ r ∉ g.busNames

theorem prepared_of_makings {g : Graph} (grown : g.Grown) {registry : Registry σ} {world : σ}
    {i : Nat} {m : Making σ} (here : (g.makings registry world)[i]? = some m) :
    Prepared g ((g.makings registry world).take i) m := by
  obtain ⟨rest, split, -⟩ := ends_buildEach g registry [] ⟨world, []⟩ g.components
  dsimp only at split
  rw [← Graph.makings] at split
  have next := next_of_makings here
  rw [← Graph.makings] at next
  have inside := (List.getElem?_eq_some_iff.mp here).1
  have component : g.components[i]? = some m.declaration := by
    rw [split, List.getElem?_append_left (by simpa using inside), List.getElem?_map, here]
    rfl
  have names : (g.components.take i).map (·.name) =
      ((g.makings registry world).take i).map (·.declaration.name) := by
    rw [split, List.take_append_of_le_length (by simpa using Nat.le_of_lt inside),
      ← List.map_take, List.map_map]
    rfl
  -- The names of the calls before are those of the components before, which take in all references.
  refine ⟨?_, by rw [next.options, List.append_nil], next.given, fun r refers => ?_⟩
  · exact (List.mem_filter.mp (List.mem_of_getElem? component)).1
  · rw [← names]
    refine ⟨fun built bus => ?_, grown.reference_component component refers⟩
    exact grown.not_component bus (((List.take_sublist ..).map _).subset built)

namespace Prepared

variable {g : Graph} {before : List (Making σ)} {m : Making σ}

theorem live (prepared : Prepared g before m) (grown : g.Grown) :
    m.options.live = m.declaration.references.filterMap fun name =>
      (Context.find? (entries before) name).map fun e => (name, e.component) := by
  rw [prepared.options, optionsOf, grown.dependencies_eq prepared.declared]

theorem points_find (prepared : Prepared g before m) (grown : g.Grown) {r : String}
    (refers : r ∈ m.declaration.references) : PointsTo g before r (m.options.find r) := by
  rw [Options.find, prepared.live grown, lookup_live, if_pos refers]
  have found := (found_iff_called prepared.given r).trans (prepared.known r refers)
  cases here : Context.find? (entries before) r with
  | some e => exact .built (found.mp (by rw [here]; rfl)) (given_of_find? here)
  | none => exact .bus (by simpa [here] using found)

/-- The live components are those that are referred to, buses apart. -/
theorem names_live (prepared : Prepared g before m) (grown : g.Grown) :
    m.options.live.map (·.1) = m.declaration.references.filter (· ∉ g.busNames) := by
  rw [prepared.live grown, map_fst_live]
  refine List.filter_congr fun r refers => ?_
  rw [Bool.eq_iff_iff, found_iff_called prepared.given, prepared.known r refers, decide_eq_true_iff]

theorem block_eq (prepared : Prepared g before m) : m.options.block = m.declaration.block := by
  rw [prepared.options]
  rfl

/-- A declaration refers to what a value of its block mentions. -/
theorem refers (prepared : Prepared g before m) {key : String} {v : Value} {r : String}
    (held : m.options.get? key = some v) (mentions : v.Mentions r) :
    r ∈ m.declaration.references := by
  rw [Options.get?, Option.filter_eq_some_iff] at held
  obtain ⟨front, back, split, -⟩ := List.lookup_eq_some_iff.mp held.1
  have inside : (key, v) ∈ m.options.block := by simp [split]
  rw [Declaration.mem_references_iff, Declaration.Mentions, ← prepared.block_eq]
  exact .entry inside mentions

theorem followed (prepared : Prepared g before m) (grown : g.Grown) (key expected : String)
    {vs : List Value} (refers : ∀ r, .reference r ∈ vs → r ∈ m.declaration.references) :
    Followed g before (m.options.invalid key expected) vs
      (vs.mapM (m.options.follow key expected)) := by
  induction vs with
  | nil => exact .nil
  | cons v vs ih =>
    have rest := ih fun r hr => refers r (List.mem_cons_of_mem _ hr)
    rw [List.mapM_cons, Options.follow, Options.expect]
    cases value : v.reference? with
    | none => exact .other value
    | some r =>
      obtain rfl : v = .reference r := by
        cases v <;> simp_all [Value.reference?]
      have points := prepared.points_find grown (refers r (List.mem_cons_self ..))
      dsimp only [bind, Except.bind]
      cases found : m.options.find r with
      | error e => exact .bus (found ▸ points)
      | ok c =>
        have more := Followed.reference (found ▸ points) rest
        cases result : vs.mapM (m.options.follow key expected) with
        | error e => simpa [result, Except.map] using more
        | ok cs => simpa [result, Except.map, pure, Except.pure] using more

end Prepared

/-- References that are all to components lead to them. -/
theorem Followed.all {g : Graph} {before : List (Making σ)} {other : Fault} {rs : List String}
    {result : Except Fault (List (Component σ))}
    (followed : Followed g before other (rs.map .reference) result)
    (built : ∀ r ∈ rs, r ∉ g.busNames) :
    ∃ cs, result = .ok cs ∧ List.Forall₂ (Given before) rs cs := by
  induction rs generalizing result with
  | nil =>
    cases followed
    exact ⟨[], rfl, .nil⟩
  | cons r rs ih =>
    obtain ⟨first, later⟩ := List.forall_mem_cons.mp built
    cases followed with
    | reference points rest =>
      obtain ⟨cs, rfl, given⟩ := ih rest later
      cases points with
      | built _ here => exact ⟨_, rfl, .cons here given⟩
    | bus points =>
      cases points with
      | bus bus => exact absurd bus first
    | other none => simp [Value.reference?] at none

/-- Nothing but a reference to a bus leads nowhere. -/
theorem Followed.missing {g : Graph} {before : List (Making σ)} {o : Fault} {vs : List Value}
    {kind id : String} {result : Except Fault (List (Component σ))}
    (followed : Followed g before o vs result) (wrong : o ≠ .notFound kind id)
    (missing : result = .error (.notFound kind id)) : .reference id ∈ vs ∧ id ∈ g.busNames := by
  induction followed with
  | nil => cases missing
  | @reference r c vs cs points rest ih =>
    cases cs with
    | ok cs => cases missing
    | error e =>
      obtain ⟨inside, bus⟩ := ih (by simpa [Except.map] using missing)
      exact ⟨List.mem_cons_of_mem _ inside, bus⟩
  | bus points =>
    cases points with
    | bus bus =>
      cases missing
      exact ⟨List.mem_cons_self, bus⟩
  | other => exact absurd (Except.error.inj missing) wrong

/-- In a call, references lead to the components that were built for their targets. -/
structure Wired (g : Graph) (before : List (Making σ)) (m : Making σ) : Prop where
  /-- The options are made for the declaration. -/
  own : m.options.name = m.declaration.name ∧ m.options.block = m.declaration.block
  /-- A reference under a key leads to the component that was built for its target. -/
  reference : ∀ key r, m.options.get? key = some (.reference r) → r ∉ g.busNames →
    ∃ c, Given before r c ∧ m.options.component key = .ok (some c) ∧
      m.options.components key = .ok [c]
  /-- The values of a list under a key are followed in turn. -/
  items : ∀ key vs, m.options.get? key = some (.items vs) →
    Followed g before (m.options.invalid key "a list of component references") vs
      (m.options.components key)
  /-- A list of references under a key leads to the components that were built for them. -/
  references : ∀ key rs, m.options.get? key = some (.items (rs.map .reference)) →
    (∀ r ∈ rs, r ∉ g.busNames) →
    ∃ cs, m.options.components key = .ok cs ∧ List.Forall₂ (Given before) rs cs
  /-- Only a reference to a bus, under the key or in its list, leads nowhere. -/
  missing : ∀ key kind id, m.options.component key = .error (.notFound kind id) ∨
    m.options.components key = .error (.notFound kind id) → id ∈ g.busNames ∧
    (m.options.get? key = some (.reference id) ∨
      ∃ vs, m.options.get? key = some (.items vs) ∧ .reference id ∈ vs)

namespace Prepared

variable {g : Graph} {before : List (Making σ)} {m : Making σ} {key kind id r : String}

/-- What a call reads under a key that holds a reference. -/
theorem read_reference (prepared : Prepared g before m) (grown : g.Grown)
    (held : m.options.get? key = some (.reference r)) : ∃ found, PointsTo g before r found ∧
      m.options.component key = found.map some ∧ m.options.components key = found.map ([·]) := by
  refine ⟨m.options.find r, prepared.points_find grown (prepared.refers held (.here r)), ?_, ?_⟩
  · rw [Options.component, held]
    rfl
  · rw [Options.components, held]

/-- What a call reads under a key that holds a list. -/
theorem read_items (prepared : Prepared g before m) (grown : g.Grown) {vs : List Value}
    (held : m.options.get? key = some (.items vs)) :
    Followed g before (m.options.invalid key "a list of component references") vs
      (m.options.components key) := by
  rw [Options.components, held]
  exact prepared.followed grown _ _ fun r inside => prepared.refers held (.item inside (.here r))

/-- Under a key that holds a reference, only one to a bus leads nowhere. -/
theorem missing_reference (prepared : Prepared g before m) (grown : g.Grown)
    (held : m.options.get? key = some (.reference r))
    (missing : m.options.component key = .error (.notFound kind id) ∨
      m.options.components key = .error (.notFound kind id)) : id = r ∧ id ∈ g.busNames := by
  obtain ⟨found, points, single, list⟩ := prepared.read_reference grown held
  rw [single, list] at missing
  cases points with
  | built => simp [Except.map] at missing
  | bus bus =>
    obtain ⟨-, rfl⟩ : "component instance" = kind ∧ r = id := by simpa [Except.map] using missing
    exact ⟨rfl, bus⟩

/-- Under a key that holds a list, only a reference to a bus leads nowhere. -/
theorem missing_items (prepared : Prepared g before m) (grown : g.Grown) {vs : List Value}
    (held : m.options.get? key = some (.items vs))
    (missing : m.options.component key = .error (.notFound kind id) ∨
      m.options.components key = .error (.notFound kind id)) :
    .reference id ∈ vs ∧ id ∈ g.busNames := by
  have wrong : m.options.component key ≠ .error (.notFound kind id) := by
    simp [Options.component, held, Options.follow, Options.expect, Value.reference?,
      Options.invalid, bind, Except.bind, Except.map]
  exact (prepared.read_items grown held).missing (by simp [Options.invalid])
    (missing.resolve_left wrong)

theorem wired (prepared : Prepared g before m) (grown : g.Grown) : Wired g before m where
  own := ⟨by rw [prepared.options]; rfl, prepared.block_eq⟩
  reference key r held other := by
    obtain ⟨found, points, single, list⟩ := prepared.read_reference grown held
    cases points with
    | @built c _ given => exact ⟨c, given, single, list⟩
    | bus bus => exact absurd bus other
  items key vs := prepared.read_items grown
  references key rs held := (prepared.read_items grown held).all
  missing key kind id missing := by
    cases held : m.options.get? key with
    | none => simp [Options.component, Options.components, held] at missing
    | some v =>
      cases v with
      | reference r =>
        obtain ⟨rfl, bus⟩ := prepared.missing_reference grown held missing
        exact ⟨bus, .inl rfl⟩
      | items vs =>
        obtain ⟨inside, bus⟩ := prepared.missing_items grown held missing
        exact ⟨bus, .inr ⟨vs, rfl, inside⟩⟩
      | _ =>
        simp [Options.component, Options.components, held, Options.follow, Options.expect,
          Value.reference?, Options.invalid, bind, Except.bind, Except.map] at missing

end Prepared

/-! ## The context -/

/-- The entry of a context for a call. -/
structure Entered (g : Graph) (m : Making σ) (e : Entry σ) : Prop where
  declared : e.name = m.declaration.name ∧ e.kind = m.declaration.kind ∧
    e.type = m.declaration.type
  component : m.component? = some e.component
  stage : e.stage = .created
  /-- It depends on the components that are referred to, each once. -/
  dependencies : e.dependencies = m.declaration.references.filter (· ∉ g.busNames)
  distinct : e.dependencies.Nodup
  mentioned : ∀ r, r ∈ e.dependencies ↔ m.declaration.Mentions r ∧ r ∉ g.busNames

theorem Prepared.entered {g : Graph} {before : List (Making σ)} {m : Making σ}
    (prepared : Prepared g before m) (grown : g.Grown) {e : Entry σ} (made : m.made? = some e) :
    Entered g m e := by
  obtain ⟨c, component, rfl⟩ := of_made? made
  have dependencies := prepared.names_live grown
  refine ⟨⟨rfl, rfl, rfl⟩, component, rfl, dependencies, ?_, fun r => ?_⟩
  · rw [Entry.fresh, dependencies, Declaration.references]
    exact (nodup_eraseDups _).filter _
  · rw [Entry.fresh, dependencies, List.mem_filter, Declaration.mem_references_iff,
      decide_eq_true_iff]

/-- A context holds an entry for each call, in order, and each depends on earlier ones. -/
structure Assembled (g : Graph) (calls : List (Making σ)) (entries : List (Entry σ)) : Prop where
  called : g.components = calls.map (·.declaration)
  entered : List.Forall₂ (Entered g) calls entries
  earlier : ∀ i e, entries[i]? = some e → ∀ r ∈ e.dependencies,
    r ∈ (entries.take i).map (·.name)

/-- When every call gives a component, there is an entry for each. -/
theorem forall₂_made {calls : List (Making σ)} (given : ∀ m ∈ calls, m.made?.isSome) :
    List.Forall₂ (fun m e => m.made? = some e) calls (calls.filterMap made?) := by
  induction calls with
  | nil => exact .nil
  | cons m calls ih =>
    obtain ⟨first, given⟩ := List.forall_mem_cons.mp given
    obtain ⟨e, made⟩ := Option.isSome_iff_exists.mp first
    rw [List.filterMap_cons_some made]
    exact .cons made (ih given)

/-- When there is a context, all declarations were built, and it holds their components. -/
theorem Making.Ends.of_ok {settings : RunSettings} {session : String} {registry : Registry σ}
    {all : Built σ} {s : Scene σ} {calls : List (Making σ)} {rest : List Declaration}
    {r : Outcome (Context σ) × Scene σ}
    (ends : Ends registry all s (contextOf settings session all s) calls rest r) {c : Context σ}
    (outcome : r.1 = .ok c) : rest = [] ∧ (∀ m ∈ calls, m.made?.isSome) ∧ r.2 = s ∧
      c.entries = all.reverse := by
  cases ends with
  | unknown => cases outcome
  | failed => cases outcome
  | panicked => cases outcome
  | complete given =>
    rw [contextOf] at outcome ⊢
    split at outcome
    · rename_i context made
      obtain rfl := Outcome.ok.inj outcome
      exact ⟨rfl, given, rfl, (Context.of_build made).1⟩
    · cases outcome

theorem assembled_of_prepared {g : Graph} (grown : g.Grown) {calls : List (Making σ)}
    (called : g.components = calls.map (·.declaration))
    (prepared : ∀ i m, calls[i]? = some m → Prepared g (calls.take i) m)
    (given : ∀ m ∈ calls, m.made?.isSome) : Assembled g calls (calls.filterMap made?) := by
  obtain ⟨length, made⟩ := List.forall₂_iff_get.mp (forall₂_made given)
  generalize calls.filterMap made? = entries at length made
  have entered : List.Forall₂ (Entered g) calls entries := by
    refine List.forall₂_iff_get.mpr ⟨length, fun i h h' => ?_⟩
    exact (prepared i _ (List.getElem?_eq_getElem h)).entered grown (made i h h')
  have names : entries.map (·.name) = calls.map (·.declaration.name) := by
    clear length made prepared given called
    induction entered with
    | nil => rfl
    | cons entered _ ih => rw [List.map_cons, List.map_cons, ih, entered.declared.1]
  refine ⟨called, entered, fun i e here r depends => ?_⟩
  obtain ⟨inside, rfl⟩ := List.getElem?_eq_some_iff.mp here
  have call := prepared i _ (List.getElem?_eq_getElem (length ▸ inside))
  have entry : Entered g calls[i] entries[i] :=
    (List.forall₂_iff_get.mp entered).2 i (length ▸ inside) inside
  obtain ⟨refers, other⟩ := (entry.mentioned r).mp depends
  rw [List.map_take, names, ← List.map_take]
  exact (call.known r (Declaration.mem_references_iff.mpr refers)).mpr other

/-- Whatever the constructors do, they are called in document order, one for each component, until
one gives none. In each call references lead to the components that were built for their targets,
and the entries of the context depend on just these. -/
theorem references_lead_to_instances (ds : List Declaration) (registry : Registry σ)
    (settings : RunSettings) (session : String) (s : Scene σ) :
    let g := Graph.offered ds
    let calls := g.makings registry s.world
    let s' := sceneAfter s calls
    let r := instantiate g registry settings session s
    (∃ rest, g.components = calls.map (·.declaration) ++ rest ∧
      Ends registry (entries calls) s' (contextOf settings session (entries calls) s') calls rest
        r) ∧
    (calls.map (·.declaration.name)).Nodup ∧
    (∀ i m, calls[i]? = some m →
      registry.Chooses m.declaration.kind m.declaration.type m.construct ∧
      m.world = worldAfter s.world (calls.take i) ∧ Wired g (calls.take i) m) ∧
    ∀ c, r.1 = .ok c → r.2 = s' ∧ Assembled g calls c.entries := by
  intro g calls s' r
  have grown := Graph.grown_offered ds
  obtain ⟨rest, split, ends⟩ := ends_instantiate g registry settings session s
  have prepared (i : Nat) (m : Making σ) (here : calls[i]? = some m) :
      Prepared g (calls.take i) m := prepared_of_makings grown here
  refine ⟨⟨rest, split, ends⟩, ?_, fun i m here => ?_, fun c outcome => ?_⟩
  · have distinct := grown.nodup_components
    rw [split, List.map_append, List.map_map] at distinct
    exact distinct.of_append_left
  · have next := next_of_makings here
    exact ⟨Registry.chooses_of_find? next.found, next.world, (prepared i m here).wired grown⟩
  · obtain ⟨rfl, given, scene, held⟩ := ends.of_ok outcome
    refine ⟨scene, ?_⟩
    rw [held, entries, List.reverse_reverse]
    exact assembled_of_prepared grown (by rw [split, List.append_nil]) prepared given

end Pipeworks
