import Pipeworks.Proofs.Lifecycle.Settling
import Pipeworks.Run.Instantiate

/-!
# Closing what was built

`constructed` lists the components that the constructors give, without regard to what the
run does with them. When building breaks off, exactly these are closed, the latest first;
when it does not, they are the components of the context. Closing is one call for each
component, whatever the calls before it came to.
-/

namespace Pipeworks

open Config

variable {σ : Type}

/-- The components that constructors give for some declarations, one after another until one
gives none. They stand in front of those built before, the latest first. -/
def constructed (g : Graph) (registry : Registry σ) (built : Built σ) (world : σ) :
    List Declaration → Built σ
  | [] => built
  | d :: rest =>
    match registry.find? d.kind d.type with
    | none => built
    | some construct =>
      let options := optionsOf g built d
      let r := construct options world
      match r.outcome with
      | .ok component =>
        let entry := Entry.fresh d.name d.kind d.type component options (options.live.map (·.1))
        constructed g registry (entry :: built) r.world rest
      | _ => built

/-- The world after the close calls of some components, one after another. -/
def afterCloses (parts : List (Entry σ)) (world : σ) : σ :=
  parts.foldl (fun world e => (e.component.close world).world) world

/-- The deeds of building some components, of which the latest stands first. -/
def builtDeeds (parts : Built σ) : List Deed :=
  (parts.map (·.name)).reverse.map .built

/-- The deeds of closing some components in the given order. -/
def closedDeeds (parts : List (Entry σ)) : List Deed :=
  (parts.map (·.name)).map .closed

/-- Some components were closed, in the given order, as the last thing that was done. -/
structure Closed (parts : List (Entry σ)) (s s' : Scene σ) : Prop where
  deeds : s'.deeds = s.deeds ++ closedDeeds parts
  calls : ∃ world, s'.world = afterCloses parts world

/-- Every component gets its call, whatever the calls come to. -/
theorem closeEach_eq (parts : List (Entry σ)) (s : Scene σ) :
    (closeEach (parts.map fun e => (e.name, e.component)) s).2 =
      ⟨afterCloses parts s.world, s.deeds ++ closedDeeds parts⟩ := by
  induction parts generalizing s with
  | nil => simp [closeEach, afterCloses, closedDeeds]
  | cons e parts ih =>
    have rest := ih ⟨(e.component.close s.world).world, s.deeds ++ [.closed e.name]⟩
    simp only [List.map_cons, closeEach]
    split <;> simp [rest, afterCloses, closedDeeds]

theorem closed_abandon (built : Built σ) (s : Scene σ) : Closed built s (abandon built s) := by
  rw [abandon, closeEach_eq]
  exact ⟨rfl, _, rfl⟩

/-! ## Building -/

/-- What building comes to. The components `parts` were built, after those before which all
stand in `all`. Either this gives something good, or all of them were closed. -/
inductive Building {α : Type} (Good : α → Prop) (parts all : Built σ) (s : Scene σ) :
    Outcome α × Scene σ → Prop where
  | done {a s'} (good : Good a) (deeds : s'.deeds = s.deeds ++ builtDeeds parts) :
      Building Good parts all s (.ok a, s')
  | brokenOff {e s' s''} (deeds : s'.deeds = s.deeds ++ builtDeeds parts)
      (closed : Closed all s' s'') : Building Good parts all s (.failed e, s'')
  | panicked {text s'} : Building Good parts all s (.panicked text, s')

/-- One more component was built at first. -/
theorem Building.cons {α : Type} {Good : α → Prop} {parts all : Built σ} {e : Entry σ}
    {s : Scene σ} {world : σ} {r : Outcome α × Scene σ}
    (building : Building Good parts all ⟨world, s.deeds ++ [.built e.name]⟩ r) :
    Building Good (parts ++ [e]) all s r := by
  have first : s.deeds ++ [.built e.name] ++ builtDeeds parts =
      s.deeds ++ builtDeeds (parts ++ [e]) := by simp [builtDeeds]
  cases building with
  | done good deeds => exact .done good (deeds.trans first)
  | brokenOff deeds closed => exact .brokenOff (deeds.trans first) closed
  | panicked => exact .panicked

/-- Nothing was built before building broke off. -/
theorem Building.abandon {α : Type} {Good : α → Prop} {before : Built σ} {s s' : Scene σ}
    {e : Fault} (deeds : s'.deeds = s.deeds) :
    Building Good [] before s ((.failed e : Outcome α), Pipeworks.abandon before s') :=
  .brokenOff (by simp [deeds, builtDeeds]) (closed_abandon before s')

theorem building_buildEach (g : Graph) (registry : Registry σ) (before : Built σ) (s : Scene σ)
    (ds : List Declaration) : ∃ parts, constructed g registry before s.world ds = parts ++ before ∧
      (parts.reverse.map (·.name)) <+: (ds.map (·.name)) ∧
      Building (· = parts ++ before) parts (parts ++ before) s
        (buildEach g registry before s ds) := by
  induction ds generalizing before s with
  | nil => exact ⟨[], rfl, by simp, .done rfl (by simp [builtDeeds])⟩
  | cons d ds ih =>
    rw [constructed, buildEach]
    cases registry.find? d.kind d.type with
    | none => exact ⟨[], rfl, by simp, .abandon rfl⟩
    | some construct =>
      dsimp only
      generalize optionsOf g before d = options
      cases (construct options s.world).outcome with
      | failed e => exact ⟨[], rfl, by simp, .abandon rfl⟩
      | panicked text => exact ⟨[], rfl, by simp, .panicked⟩
      | ok component =>
        dsimp only
        obtain ⟨parts, all, order, building⟩ := ih
          (Entry.fresh d.name d.kind d.type component options (options.live.map (·.1)) :: before)
          ⟨(construct options s.world).world, s.deeds ++ [.built d.name]⟩
        rw [List.append_cons parts] at all building
        exact ⟨_, all, by simpa [Entry.fresh] using order, building.cons⟩

/-! ## Contexts -/

/-- A context that is open and holds the given components, the latest first, at any stage. -/
structure Context.Holds (c : Context σ) (parts : Built σ) : Prop where
  isOpen : c.closed = false
  entries : c.entries.map Entry.reset = parts.reverse.map Entry.reset

theorem holds_build {session : String} {designated : Option String} {parts : Built σ}
    {c : Context σ} (made : Context.build session designated parts.reverse = .ok c) :
    c.Holds parts := by
  rw [Context.build] at made
  split at made
  · simp at made
  · split at made
    · obtain rfl := Except.ok.inj made
      exact ⟨rfl, rfl⟩
    · split at made
      · simp at made
      · split at made
        · obtain rfl := Except.ok.inj made
          exact ⟨rfl, rfl⟩
        · simp at made

theorem afterCloses_reset (parts : List (Entry σ)) (world : σ) :
    afterCloses (parts.map Entry.reset) world = afterCloses parts world := by
  simp [afterCloses, List.foldl_map, Entry.reset]

theorem closedDeeds_reset (parts : List (Entry σ)) :
    closedDeeds (parts.map Entry.reset) = closedDeeds parts := by
  simp [closedDeeds, Entry.reset]

/-- Closing an open context closes the components that it holds. -/
theorem Context.Holds.closed_closeAll {c : Context σ} {parts : Built σ} (holds : c.Holds parts)
    (s : Scene σ) (world : σ) : Closed parts s (c.closeAll { s with world }).2.2 := by
  have same : c.entries.reverse.map Entry.reset = parts.map Entry.reset := by
    rw [List.map_reverse, holds.entries, List.map_reverse, List.reverse_reverse]
  have scene : (c.closeAll { s with world }).2.2 =
      ⟨afterCloses parts world, s.deeds ++ closedDeeds parts⟩ := by
    simp only [closeAll, holds.isOpen, Bool.false_eq_true, if_false, closeEach_eq]
    rw [← afterCloses_reset, ← closedDeeds_reset, same, afterCloses_reset, closedDeeds_reset]
  rw [scene]
  exact ⟨rfl, world, rfl⟩

/-- The components that the constructors give for a document. -/
def Config.Graph.parts (g : Graph) (registry : Registry σ) (world : σ) : Built σ :=
  constructed g registry [] world (g.declarations.filter (·.kind != busKind))

/-- Building the components of a document ends with a context that holds them, or with all of
them closed. -/
theorem building_instantiate (g : Graph) (registry : Registry σ) (settings : RunSettings)
    (session : String) (s : Scene σ) :
    ((g.parts registry s.world).reverse.map (·.name)) <+:
      ((g.declarations.filter (·.kind != busKind)).map (·.name)) ∧
    Building (Context.Holds · (g.parts registry s.world)) (g.parts registry s.world)
      (g.parts registry s.world) s (instantiate g registry settings session s) := by
  obtain ⟨parts, all, order, building⟩ :=
    building_buildEach g registry [] s (g.declarations.filter (·.kind != busKind))
  rw [List.append_nil] at all building
  rw [Graph.parts, all, instantiate]
  refine ⟨order, ?_⟩
  generalize buildEach g registry [] s (g.declarations.filter (·.kind != busKind)) = r at building
  cases building with
  | done good deeds =>
    subst good
    dsimp only
    cases made : Context.build session settings.policy.input (List.reverse _) with
    | ok c => exact .done (holds_build made) deeds
    | error e => exact .brokenOff deeds (closed_abandon _ _)
  | brokenOff deeds closed => exact .brokenOff deeds closed
  | panicked => exact .panicked

end Pipeworks
