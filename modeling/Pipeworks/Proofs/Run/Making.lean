import Pipeworks.Proofs.Run.Tidiness

/-!
# Calls of constructors

`makings` lists the calls of constructors while declarations are built one after another: for which
declaration each is made, with which options, and in which world. Nothing else acts on the world
until building ends, and `Making.Ends` lists how it can end. When it breaks off with a fault, the
components that were built are closed, each once and the latest first. A constructor that panics
takes this way out from them: all of them stay open.
-/

namespace Pipeworks

open Config

variable {σ : Type}

/-- A call of a constructor. -/
structure Making (σ : Type) where
  declaration : Declaration
  construct : Constructor σ
  options : Options (Component σ)
  /-- The world that the call finds. -/
  world : σ

namespace Making

/-- What a call leaves behind. -/
def left (m : Making σ) : Construction σ := m.construct m.options m.world

/-- The component that a call gives. -/
def component? (m : Making σ) : Option (Component σ) :=
  match m.left.outcome with
  | .ok c => some c
  | _ => none

/-- The entry for the component that a call gives. -/
def made? (m : Making σ) : Option (Entry σ) :=
  m.component?.map fun c =>
    .fresh m.declaration.name m.declaration.kind m.declaration.type c m.options
      (m.options.live.map (·.1))

/-- The entries for the components that calls give, the latest first. -/
def entries (calls : List (Making σ)) : Built σ := (calls.filterMap made?).reverse

/-- The world after calls, of which the last leaves it behind. -/
def worldAfter (world : σ) (calls : List (Making σ)) : σ :=
  calls.foldl (fun _ m => m.left.world) world

/-- A scene after calls. -/
def sceneAfter (s : Scene σ) (calls : List (Making σ)) : Scene σ :=
  ⟨worldAfter s.world calls, s.deeds ++ builtDeeds (entries calls)⟩

/-- The call for a declaration when some components were built. -/
def of (g : Graph) (built : Built σ) (world : σ) (d : Declaration) (construct : Constructor σ) :
    Making σ :=
  ⟨d, construct, optionsOf g built d, world⟩

end Making

/-- The calls of constructors when declarations are built one after another, up to the first that
gives no component or is missing. -/
def makings (g : Graph) (registry : Registry σ) (built : Built σ) (world : σ) :
    List Declaration → List (Making σ)
  | [] => []
  | d :: rest =>
    match registry.find? d.kind d.type with
    | none => []
    | some construct =>
      let m := Making.of g built world d construct
      match m.made? with
      | none => [m]
      | some e => m :: makings g registry (e :: built) m.left.world rest

namespace Config.Graph

/-- The declarations of components. -/
def components (g : Graph) : List Declaration := g.declarations.filter (·.kind != busKind)

/-- The calls of constructors when the components of a document are built. -/
def makings (g : Graph) (registry : Registry σ) (world : σ) : List (Making σ) :=
  Pipeworks.makings g registry [] world g.components

end Config.Graph

namespace Making

variable {registry : Registry σ} {calls : List (Making σ)} {m : Making σ}

theorem made?_of_ok {c : Component σ} (ok : m.left.outcome = .ok c) :
    m.made? = some (.fresh m.declaration.name m.declaration.kind m.declaration.type c m.options
      (m.options.live.map (·.1))) := by
  rw [made?, component?, ok]
  rfl

theorem made?_eq_none (other : ∀ c, m.left.outcome ≠ .ok c) : m.made? = none := by
  rw [made?, component?]
  split
  · exact absurd ‹_› (other _)
  · rfl

/-- An entry is that of its call. -/
theorem of_made? {e : Entry σ} (made : m.made? = some e) : ∃ c, m.component? = some c ∧
    e = .fresh m.declaration.name m.declaration.kind m.declaration.type c m.options
      (m.options.live.map (·.1)) := by
  obtain ⟨c, given, rfl⟩ := Option.map_eq_some_iff.mp made
  exact ⟨c, given, rfl⟩

theorem entries_cons_some {e : Entry σ} (made : m.made? = some e) :
    entries (m :: calls) = entries calls ++ [e] := by
  rw [entries, List.filterMap_cons_some made, List.reverse_cons, entries]

theorem entries_single_none (none : m.made? = none) : entries [m] = [] := by
  rw [entries, List.filterMap_cons_none none]
  rfl

theorem sceneAfter_cons {s : Scene σ} {e : Entry σ} (made : m.made? = some e) :
    sceneAfter s (m :: calls) =
      sceneAfter ⟨m.left.world, s.deeds ++ [.built m.declaration.name]⟩ calls := by
  obtain ⟨c, -, rfl⟩ := of_made? made
  simp [sceneAfter, entries_cons_some made, worldAfter, builtDeeds, Entry.fresh]

/-! ## How building ends -/

/-- How building ends after some calls when some declarations are left over. The components in
`all` were built, the latest first, and the scene then was `s`. When every declaration was built,
there comes what `whole` says. -/
inductive Ends {α : Type} (registry : Registry σ) (all : Built σ) (s : Scene σ)
    (whole : Outcome α × Scene σ) :
    List (Making σ) → List Declaration → Outcome α × Scene σ → Prop where
  | complete {calls : List (Making σ)} (given : ∀ m ∈ calls, m.made?.isSome) :
      Ends registry all s whole calls [] whole
  | unknown {calls : List (Making σ)} {d rest} (given : ∀ m ∈ calls, m.made?.isSome)
      (missing : registry.find? d.kind d.type = none) :
      Ends registry all s whole calls (d :: rest) (.failed (noConstructor d), abandon all s)
  | failed {calls : List (Making σ)} {m : Making σ} {rest e}
      (given : ∀ m ∈ calls, m.made?.isSome) (outcome : m.left.outcome = .failed e) :
      Ends registry all s whole (calls ++ [m]) rest (.failed e, abandon all s)
  | panicked {calls : List (Making σ)} {m : Making σ} {rest text}
      (given : ∀ m ∈ calls, m.made?.isSome) (outcome : m.left.outcome = .panicked text) :
      Ends registry all s whole (calls ++ [m]) rest (.panicked text, s)

/-- One more call that gives a component was made at first. -/
theorem Ends.cons {α : Type} {all : Built σ} {s : Scene σ} {whole r : Outcome α × Scene σ}
    {rest : List Declaration} (ends : Ends registry all s whole calls rest r)
    (first : m.made?.isSome) : Ends registry all s whole (m :: calls) rest r := by
  cases ends with
  | complete given => exact .complete (List.forall_mem_cons.mpr ⟨first, given⟩)
  | unknown given missing => exact .unknown (List.forall_mem_cons.mpr ⟨first, given⟩) missing
  | failed given outcome =>
    rw [← List.cons_append]
    exact .failed (List.forall_mem_cons.mpr ⟨first, given⟩) outcome
  | panicked given outcome =>
    rw [← List.cons_append]
    exact .panicked (List.forall_mem_cons.mpr ⟨first, given⟩) outcome

end Making

open Making

section Equations

variable {g : Graph} {registry : Registry σ} {built : Built σ} {world : σ} {d : Declaration}
  {construct : Constructor σ}

theorem makings_unknown (missing : registry.find? d.kind d.type = none) (ds : List Declaration) :
    makings g registry built world (d :: ds) = [] := by
  rw [makings, missing]

theorem makings_last (found : registry.find? d.kind d.type = some construct)
    (nothing : (Making.of g built world d construct).made? = none) (ds : List Declaration) :
    makings g registry built world (d :: ds) = [.of g built world d construct] := by
  rw [makings, found]
  simp only [nothing]

theorem makings_cons (found : registry.find? d.kind d.type = some construct) {e : Entry σ}
    (made : (Making.of g built world d construct).made? = some e) (ds : List Declaration) :
    makings g registry built world (d :: ds) = .of g built world d construct ::
      makings g registry (e :: built) (Making.of g built world d construct).left.world ds := by
  rw [makings, found]
  simp only [made]

theorem buildEach_cons (found : registry.find? d.kind d.type = some construct) (s : Scene σ)
    (ds : List Declaration) :
    buildEach g registry built s (d :: ds) =
      let m := Making.of g built s.world d construct
      match m.left.outcome with
      | .failed e => (.failed e, abandon built ⟨m.left.world, s.deeds⟩)
      | .panicked text => (.panicked text, ⟨m.left.world, s.deeds⟩)
      | .ok c =>
        buildEach g registry
          (.fresh d.name d.kind d.type c m.options (m.options.live.map (·.1)) :: built)
          ⟨m.left.world, s.deeds ++ [.built d.name]⟩ ds := by
  rw [buildEach, found]
  rfl

end Equations

/-- Building makes the calls one after another for the first declarations. -/
theorem ends_buildEach (g : Graph) (registry : Registry σ) (built : Built σ) (s : Scene σ)
    (ds : List Declaration) :
    let calls := makings g registry built s.world ds
    let all := entries calls ++ built
    ∃ rest, ds = calls.map (·.declaration) ++ rest ∧
      Ends registry all (sceneAfter s calls) (.ok all, sceneAfter s calls) calls rest
        (buildEach g registry built s ds) := by
  have still (s : Scene σ) : sceneAfter s [] = s := by
    simp [sceneAfter, worldAfter, builtDeeds, entries]
  have alone {s : Scene σ} {m : Making σ} (nothing : m.made? = none) :
      sceneAfter s [m] = ⟨m.left.world, s.deeds⟩ := by
    simp [sceneAfter, entries_single_none nothing, worldAfter, builtDeeds]
  -- Each case of the first call is one way to end, or goes on with one more component.
  induction ds generalizing built s with
  | nil =>
    refine ⟨[], rfl, ?_⟩
    simp only [makings, still]
    exact .complete (by simp)
  | cons d ds ih =>
    cases found : registry.find? d.kind d.type with
    | none =>
      refine ⟨d :: ds, by rw [makings_unknown found]; rfl, ?_⟩
      simp only [makings_unknown found, still, buildEach, found]
      exact .unknown (by simp) found
    | some construct =>
      rw [buildEach_cons found]
      dsimp only
      cases outcome : (Making.of g built s.world d construct).left.outcome with
      | ok c =>
        have made := made?_of_ok outcome
        obtain ⟨rest, split, ends⟩ := ih _
          ⟨(Making.of g built s.world d construct).left.world, s.deeds ++ [.built d.name]⟩
        rw [makings_cons found made]
        refine ⟨rest, congrArg (d :: ·) split, ?_⟩
        rw [entries_cons_some made, sceneAfter_cons made, List.append_assoc,
          List.singleton_append]
        exact ends.cons (by rw [made]; rfl)
      | failed e =>
        have nothing := made?_eq_none (m := .of g built s.world d construct) (by simp [outcome])
        rw [makings_last found nothing, alone nothing, entries_single_none nothing]
        rw [← List.nil_append [_]]
        exact ⟨ds, rfl, .failed (by simp) outcome⟩
      | panicked text =>
        have nothing := made?_eq_none (m := .of g built s.world d construct) (by simp [outcome])
        rw [makings_last found nothing, alone nothing, entries_single_none nothing]
        rw [← List.nil_append [_]]
        exact ⟨ds, rfl, .panicked (by simp) outcome⟩

/-- The context of the components that were built, or what became of the scene without one. -/
def contextOf (settings : RunSettings) (session : String) (all : Built σ) (s : Scene σ) :
    Outcome (Context σ) × Scene σ :=
  match Context.build session settings.policy.input all.reverse with
  | .ok context => (.ok context, s)
  | .error e => (.failed e, abandon all s)

/-- A document is built by calls for its first components. -/
theorem ends_instantiate (g : Graph) (registry : Registry σ) (settings : RunSettings)
    (session : String) (s : Scene σ) :
    let calls := g.makings registry s.world
    let s' := sceneAfter s calls
    ∃ rest, g.components = calls.map (·.declaration) ++ rest ∧
      Ends registry (entries calls) s' (contextOf settings session (entries calls) s') calls rest
        (instantiate g registry settings session s) := by
  obtain ⟨rest, split, ends⟩ := ends_buildEach g registry [] s g.components
  refine ⟨rest, split, ?_⟩
  rw [List.append_nil, ← Graph.makings] at ends
  rw [instantiate, ← Graph.components]
  generalize buildEach g registry [] s g.components = r at ends
  generalize g.makings registry s.world = calls at ends ⊢
  cases ends with
  | complete given => exact .complete given
  | unknown given missing => exact .unknown given missing
  | failed given outcome => exact .failed given outcome
  | panicked given outcome => exact .panicked given outcome

/-! ## What a panic leaves open -/

theorem abandon_eq (built : Built σ) (s : Scene σ) :
    abandon built s = ⟨afterCloses built s.world, s.deeds ++ closedDeeds built⟩ := by
  rw [abandon, closeEach_eq]

/-- A call that gives a component does not panic. -/
theorem Making.not_panicked {m : Making σ} (given : m.made?.isSome) (text : Option String) :
    m.left.outcome ≠ .panicked text := by
  intro outcome
  rw [made?_eq_none (by simp [outcome])] at given
  exact absurd given (by simp)

/-- Making a context of what was built does not panic. -/
theorem contextOf_not_panicked (settings : RunSettings) (session : String) (all : Built σ)
    (s : Scene σ) (text : Option String) :
    (contextOf settings session all s).1 ≠ .panicked text := by
  rw [contextOf]
  split <;> simp

namespace Making.Ends

variable {settings : RunSettings} {session : String} {registry : Registry σ} {all : Built σ}
  {s : Scene σ} {calls : List (Making σ)} {rest : List Declaration}
  {r : Outcome (Context σ) × Scene σ}

/-- What is left of a failure: what was built is closed again. -/
theorem failed_scene
    (ends : Ends registry all s (contextOf settings session all s) calls rest r) {e : Fault}
    (outcome : r.1 = .failed e) : r.2 = abandon all s := by
  cases ends with
  | complete =>
    rw [contextOf] at outcome ⊢
    split at outcome
    · simp at outcome
    · rfl
  | unknown => rfl
  | failed => rfl
  | panicked => simp at outcome

/-- What is left of a panic: it is that of a constructor, and nothing is closed. -/
theorem panicked_iff
    (ends : Ends registry all s (contextOf settings session all s) calls rest r)
    (text : Option String) :
    (r.1 = .panicked text ↔ ∃ m ∈ calls, m.left.outcome = .panicked text) ∧
      (r.1 = .panicked text → r.2 = s) := by
  have calm {calls : List (Making σ)} (given : ∀ m ∈ calls, m.made?.isSome) :
      ¬∃ m ∈ calls, m.left.outcome = .panicked text := by
    rintro ⟨m, hm, outcome⟩
    exact not_panicked (given m hm) text outcome
  cases ends with
  | complete given =>
    have never := contextOf_not_panicked settings session all s text
    exact ⟨iff_of_false never (calm given), fun outcome => absurd outcome never⟩
  | unknown given => exact ⟨iff_of_false (by simp) (calm given), by simp⟩
  | failed given outcome =>
    refine ⟨iff_of_false (by simp) ?_, by simp⟩
    rintro ⟨m, hm, panicked⟩
    obtain hm | rfl := by simpa using hm
    · exact calm given ⟨m, hm, panicked⟩
    · simp [outcome] at panicked
  | @panicked _ m _ text' given outcome =>
    refine ⟨⟨fun same => ⟨m, by simp, outcome.trans (by simpa using same)⟩, ?_⟩, fun _ => rfl⟩
    rintro ⟨m', hm', panicked⟩
    obtain hm' | rfl := by simpa using hm'
    · exact absurd ⟨m', hm', panicked⟩ (calm given)
    · simpa [outcome] using panicked

end Making.Ends

theorem constructed_cons {g : Graph} {registry : Registry σ} {built : Built σ} {world : σ}
    {d : Declaration} {construct : Constructor σ}
    (found : registry.find? d.kind d.type = some construct) (ds : List Declaration) :
    constructed g registry built world (d :: ds) =
      let m := Making.of g built world d construct
      match m.made? with
      | none => built
      | some e => constructed g registry (e :: built) m.left.world ds := by
  rw [constructed, found]
  simp only [made?, component?, left, Making.of]
  cases (construct (optionsOf g built d) world).outcome with
  | ok c => rfl
  | failed e => rfl
  | panicked text => rfl

/-- The calls give the components that constructors give. -/
theorem entries_makings (g : Graph) (registry : Registry σ) (built : Built σ) (world : σ)
    (ds : List Declaration) : entries (makings g registry built world ds) ++ built =
      constructed g registry built world ds := by
  induction ds generalizing built world with
  | nil => rfl
  | cons d ds ih =>
    cases found : registry.find? d.kind d.type with
    | none =>
      rw [makings_unknown found, constructed, found]
      rfl
    | some construct =>
      rw [constructed_cons found]
      cases made : (Making.of g built world d construct).made? with
      | none =>
        rw [makings_last found made, entries_single_none made]
        simp only [made, List.nil_append]
      | some e =>
        rw [makings_cons found made, entries_cons_some made, List.append_assoc,
          List.singleton_append, ih]
        simp only [made]

theorem Config.Graph.parts_eq (g : Graph) (registry : Registry σ) (world : σ) :
    g.parts registry world = entries (g.makings registry world) := by
  rw [Graph.parts, ← entries_makings, List.append_nil]
  rfl

/-- A document that cannot be built leaves no component open, unless a constructor panics. Then
all that were built stay open; otherwise each is closed once, the latest first. -/
theorem left_open_by_panics_alone (ds : List Declaration) (registry : Registry σ)
    (settings : RunSettings) (session : String) (s : Scene σ) :
    let g := Graph.offered ds
    let calls := g.makings registry s.world
    let parts := g.parts registry s.world
    let world := worldAfter s.world calls
    let r := instantiate g registry settings session s
    (parts.map (·.name)).Nodup ∧
    (∀ e, r.1 = .failed e →
      r.2 = ⟨afterCloses parts world, s.deeds ++ builtDeeds parts ++ closedDeeds parts⟩) ∧
    ∀ text, (r.1 = .panicked text ↔ ∃ m ∈ calls, m.left.outcome = .panicked text) ∧
      (r.1 = .panicked text → r.2 = ⟨world, s.deeds ++ builtDeeds parts⟩) := by
  intro g calls parts world r
  have grown := Graph.grown_offered ds
  obtain ⟨rest, split, ends⟩ := ends_instantiate g registry settings session s
  have called : parts = entries calls := g.parts_eq registry s.world
  refine ⟨?_, fun e failed => ?_, fun text => ?_⟩
  · have inOrder := (building_instantiate g registry settings session s).1
    have sublist := inOrder.sublist.trans (List.filter_sublist.map _)
    rw [List.map_reverse] at sublist
    exact List.nodup_reverse.mp (sublist.nodup grown.nodup_names)
  · rw [ends.failed_scene failed, abandon_eq, called]
    rfl
  · rw [called]
    exact ends.panicked_iff text

/-- A registry that knows how to build stubborn components, and for broken ones panics. -/
def brittleRegistry : Registry Nat :=
  ⟨[(("part", "stubborn"), fun _ n => ⟨.ok stubborn, n⟩),
    (("part", "broken"), fun _ n => ⟨.panicked none, n⟩)]⟩

/-- The constructor of the third component panics, and the two before it are never closed. -/
theorem stubborn_left_open : ∃ s',
    instantiate (.offered stubbornDocument) brittleRegistry .standard "session" ⟨0, []⟩ =
      (.panicked none, s') ∧
    s'.deeds = [.built "disk", .built "cache"] ∧ s'.world = 0 := by
  have kinds : stubbornDocument.filter (·.kind != busKind) = stubbornDocument := rfl
  have outcome : (instantiate (.offered stubbornDocument) brittleRegistry .standard "session"
      ⟨0, []⟩).1 = .panicked none := by
    rw [instantiate, declarations_stubborn, kinds]
    rfl
  have calls : (Graph.offered stubbornDocument).makings brittleRegistry 0 =
      Pipeworks.makings (.offered stubbornDocument) brittleRegistry [] 0 stubbornDocument := by
    rw [Graph.makings, Graph.components, declarations_stubborn, kinds]
  have left := ((left_open_by_panics_alone stubbornDocument brittleRegistry .standard "session"
    ⟨0, []⟩).2.2 none).2 outcome
  rw [Graph.parts_eq, calls] at left
  refine ⟨_, Prod.ext outcome left, ?_, ?_⟩
  · rfl
  · rfl

end Pipeworks
