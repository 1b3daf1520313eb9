import Mathlib
import Pipeworks.Proofs.Lifecycle.Schedule

/-!
# The report in document order

If the phase calls of components come to the same in every world, the report of a
bring-up can be read off the document: component after component, each judged by
its own calls and by what became of those that it depends on.
-/

namespace Pipeworks

variable {σ : Type}

namespace Entry

/-- What a phase call of the component comes to. -/
def outcome (e : Entry σ) (p : Phase) (h : Half) (world : σ) : Outcome Unit :=
  (e.component.reply p h world).2

/-- Whether the phase calls of the component come to the same in every world. -/
def Steady (e : Entry σ) : Prop := ∀ p h world world', e.outcome p h world = e.outcome p h world'

/-- How a phase of the component fails, if it does. -/
def phaseFails? (e : Entry σ) (p : Phase) (world : σ) : Option String :=
  [Half.parallel, Half.sequential].findSome? fun h =>
    if e.has (Half.capability p h) then phaseFailure? (e.outcome p h world) else none

end Entry

/-- Whether a component that there is did not come to be started. -/
def fellShort (done : List (String × Stage)) (name : String) : Bool :=
  match done.lookup name with
  | none | some .started => false
  | some _ => true

namespace Entry

/-- What becomes of a component, by what became of those before it. -/
def verdict (e : Entry σ) (world : σ) (done : List (String × Stage)) : Stage :=
  match e.phaseFails? .init world with
  | some reason => .failed reason
  | none =>
    match e.dependencies.find? (fellShort done) with
    | some name => .failed ("dependency " ++ inQuotes name ++ " failed")
    | none =>
      match e.phaseFails? .start world with
      | some reason => .failed reason
      | none => .started

/-- The calls with a permit in one phase. -/
def parallelCalls (e : Entry σ) (p : Phase) : Nat :=
  if e.has (Half.capability p .parallel) then 1 else 0

/-- All calls with a permit that a component makes: the one of its init phase, and that
of its start phase if it comes to that. -/
def dispatches (e : Entry σ) (world : σ) (done : List (String × Stage)) : Nat :=
  e.parallelCalls .init +
    if (e.phaseFails? .init world).isNone && (e.dependencies.find? (fellShort done)).isNone then
      e.parallelCalls .start
    else 0

end Entry

/-- What becomes of each component, in document order. -/
def verdicts (world : σ) (entries : List (Entry σ)) : List (String × Stage) :=
  entries.foldl (fun done e => done ++ [(e.name, e.verdict world done)]) []

/-- The report computed in document order. -/
def LifecycleReport.inOrder (world : σ) (entries : List (Entry σ)) : LifecycleReport :=
  let done := verdicts world entries
  ⟨done, failuresOf done, (entries.map fun e => e.dispatches world done).sum⟩

/-! ## Verdicts -/

section Verdicts

variable {world : σ} {entries : List (Entry σ)}

theorem verdicts_append (world : σ) (before after : List (Entry σ)) :
    ∃ more, verdicts world (before ++ after) = verdicts world before ++ more ∧
      more.map Prod.fst = after.map Entry.name := by
  induction after generalizing before with
  | nil => exact ⟨[], by simp⟩
  | cons e after ih =>
    obtain ⟨more, rest, names⟩ := ih (before ++ [e])
    have one : verdicts world (before ++ [e]) =
        verdicts world before ++ [(e.name, e.verdict world (verdicts world before))] := by
      rw [verdicts, List.foldl_append]
      rfl
    refine ⟨(e.name, e.verdict world (verdicts world before)) :: more, ?_, by simp [names]⟩
    rw [one] at rest
    simpa using rest

theorem verdicts_names (world : σ) (entries : List (Entry σ)) :
    (verdicts world entries).map Prod.fst = entries.map Entry.name := by
  obtain ⟨more, all, names⟩ := verdicts_append world [] entries
  rw [← names]
  exact congrArg (List.map Prod.fst) all

/-- What became of a name does not change with what comes after. -/
theorem fellShort_take (world : σ) {i : Nat} {name : String}
    (known : (∃ d ∈ entries, d.name = name) → ∃ d ∈ entries.take i, d.name = name) :
    fellShort (verdicts world (entries.take i)) name = fellShort (verdicts world entries) name := by
  obtain ⟨more, all, names⟩ := verdicts_append world (entries.take i) (entries.drop i)
  rw [List.take_append_drop] at all
  have same : (verdicts world entries).lookup name =
      (verdicts world (entries.take i)).lookup name := by
    rw [all, List.lookup_append]
    cases early : (verdicts world (entries.take i)).lookup name with
    | some stage => rfl
    | none =>
      have absent : name ∉ (entries.take i).map Entry.name := by
        rw [← verdicts_names world]
        intro hn
        obtain ⟨v, hv, rfl⟩ := List.mem_map.mp hn
        rw [List.lookup_eq_none_iff] at early
        simpa using early v hv
      have nowhere : name ∉ more.map Prod.fst := by
        rw [names]
        intro hn
        obtain ⟨d, hd, named⟩ := List.mem_map.mp hn
        obtain ⟨d', hd', named'⟩ := known ⟨d, List.mem_of_mem_drop hd, named⟩
        exact absent (List.mem_map.mpr ⟨d', hd', named'⟩)
      rw [Option.none_or, List.lookup_eq_none_iff]
      intro v hv
      apply bne_iff_ne.mpr
      rintro rfl
      exact nowhere (List.mem_map.mpr ⟨v, hv, rfl⟩)
  rw [fellShort, fellShort, same]

/-- In a document in which components depend on earlier ones, each is judged by the
verdicts on all. -/
theorem verdicts_getElem? (ordered : Context.Ordered entries) {i : Nat} {e : Entry σ}
    (entry : entries[i]? = some e) :
    (verdicts world entries)[i]? = some (e.name, e.verdict world (verdicts world entries)) := by
  obtain ⟨inside, rfl⟩ := List.getElem?_eq_some_iff.mp entry
  have same : entries[i].dependencies.find? (fellShort (verdicts world (entries.take i))) =
      entries[i].dependencies.find? (fellShort (verdicts world entries)) := by
    apply List.find?_congr
    intro name depends
    exact fellShort_take world (ordered i _ entry name depends)
  have judged : entries[i].verdict world (verdicts world (entries.take i)) =
      entries[i].verdict world (verdicts world entries) := by
    simp only [Entry.verdict, same]
  rw [← judged]
  obtain ⟨more, all, -⟩ := verdicts_append world (entries.take (i + 1)) (entries.drop (i + 1))
  have one : verdicts world (entries.take (i + 1)) = verdicts world (entries.take i) ++
      [(entries[i].name, entries[i].verdict world (verdicts world (entries.take i)))] := by
    rw [List.take_succ_eq_append_getElem inside, verdicts, List.foldl_append]
    rfl
  have length : (verdicts world (entries.take i)).length = i := by
    have names := congrArg List.length (verdicts_names world (entries.take i))
    simpa [Nat.min_eq_left (Nat.le_of_lt inside)] using names
  rw [List.take_append_drop, one] at all
  rw [all, List.append_assoc, List.getElem?_append_right (by omega), length, Nat.sub_self]
  rfl

end Verdicts

/-! ## Phases -/

namespace Entry

variable {e : Entry σ} {p : Phase} {world : σ}

theorem phaseFails?_none
    (passed : ∀ h, e.has (Half.capability p h) = true → e.outcome p h world = .ok ()) :
    e.phaseFails? p world = none := by
  rw [phaseFails?]
  rw [List.findSome?_eq_none_iff]
  intro h _
  split
  · rename_i has
    rw [passed h has]
    rfl
  · rfl

theorem phaseFails?_some {h : Half} {reason : String} (has : e.has (Half.capability p h) = true)
    (fails : phaseFailure? (e.outcome p h world) = some reason)
    (passed : h = .sequential → e.has (Half.capability p .parallel) = true →
      e.outcome p .parallel world = .ok ()) : e.phaseFails? p world = some reason := by
  rw [phaseFails?]
  cases h with
  | parallel => simp [has, fails]
  | sequential =>
    have first : (if e.has (Half.capability p .parallel) then
        phaseFailure? (e.outcome p .parallel world) else none) = none := by
      split
      · rename_i parallel
        rw [passed rfl parallel]
        rfl
      · rfl
    simp [first, has, fails]

end Entry

end Pipeworks
