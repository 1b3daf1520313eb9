import Pipeworks.Proofs.Config.Insertion
import Pipeworks.Proofs.Run.Closing
import Pipeworks.Proofs.Run.WaysOut
import Mathlib.Data.List.Perm.Subperm

/-!
# Components are closed once, the latest first

Three mechanisms close components: what breaks off the building closes what was built
before, the end of a chain or loop closes its context, and every other way out closes the
context on leaving. On each way out exactly one of them acts. So a run that returns leaves
no component open and closes none twice, and none before one that refers to it.
-/

namespace Pipeworks

open Config

variable {σ : Type}

/-- How a run leaves the components that were built for `g`, of which `parts` lists the latest
first. -/
structure Tidy (g : Graph) (parts : Built σ) (s s' : Scene σ) : Prop where
  /-- They were built one after another, and then closed the other way round. -/
  deeds : s'.deeds = s.deeds ++ builtDeeds parts ++ closedDeeds parts
  /-- The last that happened were the close calls of all of them, whatever those came to. -/
  calls : ∃ world, s'.world = afterCloses parts world
  /-- None is closed twice. -/
  once : (parts.map (·.name)).Nodup
  /-- They were built in document order, up to the first that could not be built. -/
  inOrder : (parts.reverse.map (·.name)) <+:
    ((g.declarations.filter (·.kind != busKind)).map (·.name))
  /-- None is closed before one that refers to it. -/
  references : ∀ d ∈ g.declarations, ∀ r ∈ d.references, d.name ∈ parts.map (·.name) →
    r ∈ parts.map (·.name) → [d.name, r].Sublist (parts.map (·.name))

/-- The components that the constructors of an engine give for a document; without settings
there are none. -/
def Engine.parts (engine : Engine σ) (g : Graph) (world : σ) : Built σ :=
  match engine.settings g with
  | .error _ => []
  | .ok _ => g.parts engine.registry world

/-! ## Every way out closes the components -/

theorem Context.Holds.up {c : Context σ} {parts : Built σ} (holds : c.Holds parts)
    {workers : Nat} {attached : Bool} {world : σ} {up : BroughtUp σ}
    (comesUp : c.ComesUp workers attached world up) : up.context.Holds parts := by
  obtain ⟨permits, schedule, -, -, rfl⟩ := comesUp
  exact ⟨holds.isOpen, (Ascent.play_reset ..).trans holds.entries⟩

theorem Drive.closed {c : Context σ} {settings : RunSettings} {interrupted : Bool} {s : Scene σ}
    {ended : Ended σ Summary} {parts : Built σ} (drive : Drive c settings interrupted s ended)
    (holds : c.Holds parts) : Closed parts s ended.scene := by
  cases drive with
  | noInput => exact holds.closed_closeAll s s.world
  | chain => exact holds.closed_closeAll s _
  | unregistered => exact holds.closed_closeAll s _
  | loop => exact holds.closed_closeAll s _

theorem Engine.Launched.holds {engine : Engine σ} {g : Graph} {session : String}
    {attached : Bool} {s s' : Scene σ} {settings : RunSettings} {up : BroughtUp σ}
    (launched : engine.Launched g session attached s settings s' up) :
    up.context.Holds (engine.parts g s.world) ∧
      s'.deeds = s.deeds ++ builtDeeds (engine.parts g s.world) := by
  obtain ⟨c, built, comesUp⟩ := launched.context
  have building := (building_instantiate g engine.registry settings session s).2
  rw [Engine.instantiate] at built
  rw [built] at building
  rw [Engine.parts, launched.settled]
  cases building with
  | done holds deeds => exact ⟨holds.up comesUp, deeds⟩

/-- On every way out the components that were built are closed. -/
theorem Engine.WayOut.closed {engine : Engine σ} {g : Graph} {session : String}
    {attached interrupted : Bool} {s : Scene σ} {r : RunResult σ}
    (out : engine.WayOut g session attached interrupted s r) : ∃ s' : Scene σ,
      s'.deeds = s.deeds ++ builtDeeds (engine.parts g s.world) ∧
      Closed (engine.parts g s.world) s' r.scene := by
  cases out with
  | unsettled refused =>
    rw [Engine.parts, refused]
    exact ⟨s, by simp [builtDeeds], by simp [closedDeeds], s.world, rfl⟩
  | @unbuilt settings e s' settled refused =>
    have building := (building_instantiate g engine.registry settings session s).2
    rw [Engine.instantiate] at refused
    rw [refused] at building
    rw [Engine.parts, settled]
    cases building with
    | brokenOff deeds closed => exact ⟨_, deeds, closed⟩
  | @down settings s' up launched failed ended closed =>
    obtain ⟨holds, deeds⟩ := launched.holds
    subst closed
    exact ⟨s', deeds, holds.closed_closeAll s' up.world⟩
  | @driven settings s' up launched succeeded ended drive =>
    obtain ⟨holds, deeds⟩ := launched.holds
    exact ⟨{ s' with world := up.world }, deeds, drive.closed holds⟩

/-! ## The order of closing -/

/-- Two members of a part of a list without repetition stand in it as in the whole. -/
theorem pair_sublist {names part : List String} (nodup : names.Nodup)
    (sublist : part.Sublist names) {a b : String} (pair : [a, b].Sublist names) (ha : a ∈ part)
    (hb : b ∈ part) : [a, b].Sublist part := by
  have kept := sublist.filter (· ∈ part)
  rw [List.filter_eq_self.mpr (by simp)] at kept
  have within : names.filter (· ∈ part) ⊆ part := by
    intro x hx
    simpa using (List.mem_filter.mp hx).2
  have same := kept.eq_of_length_le (List.subperm_of_subset (nodup.filter _) within).length_le
  rw [same]
  simpa [ha, hb] using pair.filter (· ∈ part)

/-- A declaration stands after those that it refers to. -/
theorem Config.Graph.Grown.reference_sublist {g : Graph} (grown : g.Grown) {d : Declaration}
    (hd : d ∈ g.declarations) {r : String} (hr : r ∈ d.references) :
    [r, d.name].Sublist g.names := by
  obtain ⟨p, q, declared, referred, edge⟩ := grown.reference hd hr
  have before := (grown.forwards _ edge).1
  rw [← Graph.getElem?_names] at declared referred
  have first : r ∈ g.names.take p := by
    refine List.mem_of_getElem? (i := q) ?_
    rwa [List.getElem?_take_of_lt before]
  have second : d.name ∈ g.names.drop p := by
    refine List.mem_of_getElem? (i := 0) ?_
    rwa [List.getElem?_drop]
  have split := (List.singleton_sublist.mpr first).append (List.singleton_sublist.mpr second)
  rwa [List.take_append_drop] at split

/-- The latest first, no component is closed before one that refers to it. -/
theorem tidy_of_closed {g : Graph} (grown : g.Grown) {parts : Built σ} {s s' s'' : Scene σ}
    (inOrder : (parts.reverse.map (·.name)) <+:
      ((g.declarations.filter (·.kind != busKind)).map (·.name)))
    (deeds : s'.deeds = s.deeds ++ builtDeeds parts) (closed : Closed parts s' s'') :
    Tidy g parts s s'' := by
  have sublist : (parts.map (·.name)).reverse.Sublist g.names := by
    rw [← List.map_reverse]
    exact inOrder.sublist.trans (List.filter_sublist.map _)
  refine ⟨by rw [closed.deeds, deeds], closed.calls, ?_, inOrder, ?_⟩
  · exact List.nodup_reverse.mp (sublist.nodup grown.nodup_names)
  · intro d hd r hr here there
    have pair := pair_sublist grown.nodup_names sublist (grown.reference_sublist hd hr)
      (List.mem_reverse.mpr there) (List.mem_reverse.mpr here)
    simpa using pair.reverse

/-- However a run ends, every component that a constructor gave is closed exactly once, the
latest first, also after a close call that failed or panicked; and a run ends in one of these
ways unless it panics. -/
theorem closed_on_every_way_out (engine : Engine σ) (ds : List Declaration) (session : String)
    (attached interrupted : Bool) (s : Scene σ) :
    (∀ r, engine.WayOut (.offered ds) session attached interrupted s r →
      Tidy (.offered ds) (engine.parts (.offered ds) s.world) s r.scene) ∧
    ∀ fuel,
      (∃ text, (engine.run (.offered ds) session attached interrupted fuel s).outcome =
        .panicked text) ∨
      engine.WayOut (.offered ds) session attached interrupted s
        (engine.run (.offered ds) session attached interrupted fuel s) := by
  refine ⟨fun r out => ?_, fun fuel => engine.wayOut_run ..⟩
  obtain ⟨s', deeds, closed⟩ := out.closed
  refine tidy_of_closed (Graph.grown_offered ds) ?_ deeds closed
  rw [Engine.parts]
  cases engine.settings (.offered ds) with
  | error => simp
  | ok settings => exact (building_instantiate _ engine.registry settings session s).1

/-- A component that counts its close calls in the world and then panics. -/
def stubborn : Component Nat where
  close := fun n => { outcome := .panicked none, world := n + 1 }

/-- An engine that can build nothing but stubborn components. -/
def stubbornEngine : Engine Nat where
  registry := ⟨[(("part", "stubborn"), fun _ n => ⟨.ok stubborn, n⟩),
    (("part", "broken"), fun o n => ⟨.failed (.failed o.name "out of order"), n⟩)]⟩
  config := .standard

/-- Two components that can be built, the second of which refers to the first, and one that
cannot. -/
def stubbornDocument : List Declaration :=
  [⟨"disk", "part", "stubborn", [], 1⟩,
    ⟨"cache", "part", "stubborn", [("on", .reference "disk")], 2⟩,
    ⟨"lamp", "part", "broken", [], 3⟩]

theorem declarations_stubborn :
    (Graph.offered stubbornDocument).declarations = stubbornDocument := by
  have first : (["disk"] : List String).eraseDups = ["disk"] := rfl
  simp [stubbornDocument, Graph.offered, Graph.offer, Graph.insert, Graph.contains,
    Graph.position?, Graph.empty, Graph.positions, Graph.declarations, Graph.size, Except.map,
    Declaration.references, Block.references_eq, Value.entryReferencesRec, Value.referencesRec,
    first]

theorem settings_stubborn :
    stubbornEngine.settings (.offered stubbornDocument) = .ok RunSettings.standard := by
  have none : (Graph.offered stubbornDocument).ofKind busKind = [] := by
    rw [Graph.ofKind, declarations_stubborn]
    decide
  rw [Engine.settings, RunSettings.ofGraph, none]
  rfl

/-- A component that cannot be built ends the run; those before it are closed, the latest
first, though the first of these close calls panics. -/
theorem stubborn_tidy : ∃ r,
    stubbornEngine.WayOut (.offered stubbornDocument) "session" false false ⟨0, []⟩ r ∧
    Tidy (.offered stubbornDocument) (stubbornEngine.parts (.offered stubbornDocument) 0)
      ⟨0, []⟩ r.scene ∧
    r.scene.deeds = [.built "disk", .built "cache", .closed "cache", .closed "disk"] := by
  have kinds : stubbornDocument.filter (·.kind != busKind) = stubbornDocument := rfl
  have parts : (stubbornEngine.parts (.offered stubbornDocument) 0).map (·.name) =
      ["cache", "disk"] := by
    rw [Engine.parts, settings_stubborn, Graph.parts, declarations_stubborn, kinds]
    rfl
  have refused : ∃ e s', stubbornEngine.instantiate (.offered stubbornDocument)
      RunSettings.standard "session" ⟨0, []⟩ = (.failed e, s') := by
    rw [Engine.instantiate, instantiate, declarations_stubborn, kinds]
    exact ⟨_, _, rfl⟩
  obtain ⟨e, s', refused⟩ := refused
  have out : stubbornEngine.WayOut (.offered stubbornDocument) "session" false false ⟨0, []⟩
      ⟨.failed e, [], s'⟩ := .unbuilt settings_stubborn refused
  have tidy := (closed_on_every_way_out stubbornEngine stubbornDocument "session" false false
    ⟨0, []⟩).1 _ out
  refine ⟨_, out, tidy, ?_⟩
  rw [tidy.deeds, builtDeeds, closedDeeds, parts]
  rfl

end Pipeworks
