import Pipeworks.Proofs.Config.Insertion
import Pipeworks.Proofs.Lifecycle.Display
import Pipeworks.Proofs.Run.WaysOut

/-!
# The display of a run

Building puts every component after those whose live objects it is given, at the first of all
stages and under a name of its own. So a display of its bring-up ends with the report, whatever the
phase calls report and come to.
-/

namespace Pipeworks

open Config

variable {σ : Type}

/-! ## What is built -/

/-- Components as building leaves them, the latest first: none has begun, and each depends on
those behind it. -/
inductive Grounded : Built σ → Prop where
  | nil : Grounded []
  | cons {e : Entry σ} {built : Built σ} (created : e.stage = .created)
      (depends : ∀ name ∈ e.dependencies, ∃ d ∈ built, d.name = name) (rest : Grounded built) :
      Grounded (e :: built)

theorem live_optionsOf {g : Graph} {built : Built σ} {d : Declaration} {name : String}
    (live : name ∈ (optionsOf g built d).live.map (·.1)) : ∃ e ∈ built, e.name = name := by
  simp only [optionsOf, List.map_filterMap, List.mem_filterMap] at live
  obtain ⟨other, -, found⟩ := live
  cases here : Context.find? built other with
  | none => simp [here] at found
  | some e =>
    simp only [here, Option.map_some, Option.some.injEq] at found
    obtain rfl := found
    exact ⟨e, List.mem_of_find?_eq_some here, by simpa using List.find?_some here⟩

theorem Grounded.buildEach {g : Graph} {registry : Registry σ} {built built' : Built σ}
    {s s' : Scene σ} {ds : List Declaration} (grounded : Grounded built)
    (made : buildEach g registry built s ds = (.ok built', s')) : Grounded built' := by
  induction ds generalizing built s with
  | nil =>
    obtain ⟨same, -⟩ := Prod.mk.inj made
    obtain rfl := Outcome.ok.inj same
    exact grounded
  | cons d ds ih =>
    rw [Pipeworks.buildEach] at made
    split at made
    · cases made
    · dsimp only at made
      split at made
      · cases made
      · cases made
      · exact ih (.cons rfl (fun _ live => live_optionsOf live) grounded) made

namespace Context

theorem nodup_of_repeatedName? {seen : List String} {entries : List (Entry σ)}
    (none : repeatedName? seen entries = none) :
    (entries.map Entry.name).Nodup ∧ ∀ e ∈ entries, e.name ∉ seen := by
  induction entries generalizing seen with
  | nil => simp
  | cons e rest ih =>
    rw [repeatedName?] at none
    split at none
    · cases none
    · rename_i fresh
      obtain ⟨distinct, apart⟩ := ih none
      rw [List.map_cons, List.nodup_cons, List.forall_mem_cons]
      refine ⟨⟨?_, distinct⟩, by simpa using fresh, fun d hd seen => ?_⟩
      · rintro there
        obtain ⟨d, hd, same⟩ := List.mem_map.mp there
        exact apart d hd (same ▸ List.mem_cons_self ..)
      · exact apart d hd (List.mem_cons_of_mem _ seen)

theorem of_build {session : String} {designated : Option String} {entries : List (Entry σ)}
    {c : Context σ} (made : build session designated entries = .ok c) :
    c.entries = entries ∧ (entries.map Entry.name).Nodup := by
  rw [build] at made
  split at made
  · cases made
  · rename_i none
    have distinct := (nodup_of_repeatedName? none).1
    split at made
    · obtain rfl := Except.ok.inj made
      exact ⟨rfl, distinct⟩
    · split at made
      · cases made
      · split at made
        · obtain rfl := Except.ok.inj made
          exact ⟨rfl, distinct⟩
        · cases made

end Context

theorem Grounded.created {built : Built σ} (grounded : Grounded built) :
    ∀ e ∈ built, e.stage = .created := by
  induction grounded with
  | nil => simp
  | cons created _ _ ih => exact List.forall_mem_cons.mpr ⟨created, ih⟩

/-- In document order, whatever a component depends on is there before it. -/
theorem Grounded.depends {built : Built σ} (grounded : Grounded built) (i : Nat) (x : Entry σ)
    (entry : built.reverse[i]? = some x) :
    ∀ name ∈ x.dependencies, ∃ d ∈ built.reverse.take i, d.name = name := by
  induction grounded with
  | nil => simp at entry
  | @cons e built created depends rest ih =>
    rw [List.reverse_cons, List.getElem?_append] at entry
    rw [List.reverse_cons]
    split at entry
    · rename_i inside
      rw [List.take_append_of_le_length (Nat.le_of_lt inside)]
      exact ih entry
    · rename_i outside
      obtain ⟨last, rfl⟩ : i = built.reverse.length ∧ e = x := by
        rw [List.getElem?_singleton] at entry
        split at entry
        · exact ⟨by omega, Option.some.inj entry⟩
        · cases entry
      rw [last, List.take_left]
      simpa using depends

/-- What a context is like that was built from a document. -/
structure Context.Fresh (c : Context σ) : Prop where
  distinct : (c.entries.map Entry.name).Nodup
  created : ∀ e ∈ c.entries, e.stage = .created
  ordered : Context.Ordered c.entries

theorem fresh_instantiate {g : Graph} {registry : Registry σ} {settings : RunSettings}
    {session : String} {s s' : Scene σ} {c : Context σ}
    (built : instantiate g registry settings session s = (.ok c, s')) : c.Fresh := by
  rw [instantiate] at built
  split at built
  · rename_i parts s'' made
    have grounded := Grounded.nil.buildEach made
    split at built
    · rename_i context ok
      obtain ⟨same, -⟩ := Prod.mk.inj built
      obtain rfl := Outcome.ok.inj same
      obtain ⟨entries, distinct⟩ := Context.of_build ok
      refine ⟨entries ▸ distinct, ?_, ?_⟩
      · rw [entries]
        exact fun e he => grounded.created e (List.mem_reverse.mp he)
      · rw [entries]
        exact fun i e entry name needed _ => grounded.depends i e entry name needed
    · cases built
  · cases built
  · cases built

/-- Whatever the phase calls of components that were built from a document report and come to, and
in whatever order they are brought up: a display of all updates, in the order in which they were
published, shows the stages and the failures of the report, and everything is complete. -/
theorem display_shows_report (g : Graph) (registry : Registry σ) (settings : RunSettings)
    (session : String) (s s' : Scene σ) (c : Context σ) (workers : Nat) (world : σ)
    (up : BroughtUp σ) (built : instantiate g registry settings session s = (.ok c, s'))
    (comesUp : c.ComesUp workers true world up) :
    let display := up.updates.foldl Tracker.take (Tracker.ofNames (c.entries.map Entry.name))
    display.components.map (fun part => (part.1, part.2.stage)) = up.report.stages ∧
    display.failed = up.report.failures.map Prod.fst ∧
    (∀ part ∈ display.components, part.2.init = 100 ∧ part.2.start = 100) ∧
    display.isComplete = true ∧
    display.aggregate = 100 := by
  have fresh := fresh_instantiate built
  obtain ⟨permits, schedule, reserved, stuck, rfl⟩ := comesUp
  have staffed : 0 < permits := by
    rw [reserve] at reserved
    split at reserved
    · obtain rfl := Outcome.ok.inj reserved
      omega
    · cases reserved
  have complete := Ascent.complete_play fresh.distinct fresh.created fresh.ordered staffed world
    schedule stuck
  exact ⟨complete.stages, complete.failed, complete.full, complete.complete, complete.aggregate⟩

/-- A component whose first phase call reports more than everything and then fails. -/
def rash : Component Nat where
  parallelInit := some fun n => ⟨[30, 200], .failed (.failed "disk" "no disk"), n + 1⟩

/-- A component with one phase call, which succeeds. -/
def placid : Component Nat where
  init := some fun n => ⟨[], .ok (), n + 1⟩

def rashRegistry : Registry Nat :=
  ⟨[(("part", "rash"), fun _ n => ⟨.ok rash, n⟩),
    (("part", "placid"), fun _ n => ⟨.ok placid, n⟩)]⟩

/-- The second component refers to the first. -/
def rashDocument : List Declaration :=
  [⟨"disk", "part", "rash", [], 1⟩, ⟨"cache", "part", "placid", [("on", .reference "disk")], 2⟩]

def rashContext : Context Nat :=
  ⟨"session",
    [.fresh "disk" "part" "rash" rash ⟨"disk", [], []⟩ [],
      .fresh "cache" "part" "placid" placid
        ⟨"cache", [("on", .reference "disk")], [("disk", rash)]⟩ ["disk"]],
    none, false⟩

theorem declarations_rash : (Graph.offered rashDocument).declarations = rashDocument ∧
    (Graph.offered rashDocument).dependencies "disk" = [] ∧
    (Graph.offered rashDocument).dependencies "cache" = ["disk"] := by
  have first : (["disk"] : List String).eraseDups = ["disk"] := rfl
  simp [rashDocument, Graph.offered, Graph.offer, Graph.insert, Graph.contains,
    Graph.dependencies, Graph.node?, Graph.position?, Graph.empty, Graph.positions,
    Graph.declarations, Graph.size, Except.map, Declaration.references, Block.references_eq,
    Value.entryReferencesRec, Value.referencesRec, Std.HashMap.getElem_insert, first]

theorem instantiate_rash :
    instantiate (.offered rashDocument) rashRegistry .standard "session" ⟨0, []⟩ =
      (.ok rashContext, ⟨0, [.built "disk", .built "cache"]⟩) := by
  obtain ⟨declarations, disk, cache⟩ := declarations_rash
  generalize Graph.offered rashDocument = g at declarations disk cache ⊢
  rw [instantiate, declarations]
  simp [rashDocument, buildEach, optionsOf, disk, cache, rashRegistry, Registry.find?, busKind]
  rfl

/-- The first component fails and the second with it; the display shows both as failed. -/
theorem display_shows_rash : ∃ up, rashContext.ComesUp 2 true 0 up ∧
    (up.updates.foldl Tracker.take (Tracker.ofNames (rashContext.entries.map Entry.name))).failed =
      ["disk", "cache"] := by
  rcases rashContext.bringUp_cases 2 true 0 with ⟨text, panicked⟩ | ⟨up, done, comesUp⟩
  · cases panicked
  · obtain ⟨-, failed, -⟩ := display_shows_report (.offered rashDocument) rashRegistry .standard
      "session" ⟨0, []⟩ _ rashContext 2 0 up instantiate_rash comesUp
    obtain rfl := Outcome.ok.inj done
    exact ⟨_, comesUp, failed.trans rfl⟩

end Pipeworks
