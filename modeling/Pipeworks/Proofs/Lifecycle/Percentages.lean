import Mathlib.Algebra.Ring.Nat
import Mathlib.Data.List.Induction
import Pipeworks.Proofs.Config.Insertion
import Pipeworks.Proofs.Lifecycle.Display

/-!
# Percentages only grow

An update of a component moves no percentage back and none above 100, whatever its phase and stage.
The components of a tracker stay the same while it takes updates of tracked names, so their
percentages together grow as well, and they come to the whole only when each of them has.
-/

namespace Pipeworks

/-! ## One component -/

namespace Progress

variable {p q r : Progress}

/-- No percentage is above 100. -/
structure Bounded (p : Progress) : Prop where
  init : p.init ≤ 100
  start : p.start ≤ 100

/-- No percentage of the first progress is above that of the second one. -/
structure Behind (p q : Progress) : Prop where
  init : p.init ≤ q.init
  start : p.start ≤ q.start

theorem Behind.trans (first : p.Behind q) (second : q.Behind r) : p.Behind r :=
  ⟨Nat.le_trans first.init second.init, Nat.le_trans first.start second.start⟩

theorem bounded_fresh : fresh.Bounded := ⟨Nat.zero_le _, Nat.zero_le _⟩

theorem Bounded.take (bounded : p.Bounded) {u : Update} (percent : u.percent ≤ 100) :
    (p.take u).Bounded :=
  have le := take_le bounded.init bounded.start percent
  ⟨le.1, le.2⟩

/-- The start phase and a failure set a percentage to 100, which is not lower than it was. -/
theorem Bounded.behind_take (bounded : p.Bounded) (u : Update) : p.Behind (p.take u) := by
  obtain ⟨init, start⟩ := bounded
  rw [Progress.take]
  cases u.stage.isFailed with
  | true => exact ⟨init, start⟩
  | false =>
    cases u.phase with
    | init => exact ⟨Nat.le_max_left _ _, Nat.le_refl _⟩
    | start => exact ⟨init, Nat.le_max_left _ _⟩

theorem stage_take (p : Progress) (u : Update) : (p.take u).stage = u.stage := by
  rw [take]
  cases u.stage.isFailed <;> rfl

theorem Bounded.foldl {updates : List Update} (bounded : p.Bounded)
    (percents : ∀ u ∈ updates, u.percent ≤ 100) :
    (updates.foldl Progress.take p).Bounded ∧ p.Behind (updates.foldl Progress.take p) := by
  induction updates generalizing p with
  | nil => exact ⟨bounded, Nat.le_refl _, Nat.le_refl _⟩
  | cons u updates ih =>
    obtain ⟨percent, percents⟩ := List.forall_mem_cons.mp percents
    obtain ⟨bounded', behind⟩ := ih (bounded.take percent) percents
    exact ⟨bounded', (bounded.behind_take u).trans behind⟩

end Progress

/-! ## All components together -/

namespace Tracker

variable {names : List String} {updates earlier : List Update} {name : String}

/-- The stage that the last update of a component tells. -/
def lastStage (updates : List Update) (name : String) : Stage :=
  ((updates.filter (·.component = name)).getLast?.map (·.stage)).getD .created

theorem stage_shown (updates : List Update) (name : String) :
    (shown updates name .fresh).stage = lastStage updates name := by
  rw [shown, lastStage]
  generalize updates.filter (·.component = name) = own
  induction own using List.reverseRecOn with
  | nil => rfl
  | append_singleton own u _ =>
    rw [List.foldl_concat, Progress.stage_take, List.getLast?_concat]
    rfl

/-- The percentages of a component that is shown are bounded, and no later ones fall behind them. -/
theorem bounded_shown (percents : ∀ u ∈ updates, u.percent ≤ 100) (name : String) :
    (shown updates name .fresh).Bounded :=
  (Progress.bounded_fresh.foldl fun u hu => percents u (List.mem_filter.mp hu).1).1

theorem behind_shown (percents : ∀ u ∈ updates, u.percent ≤ 100) (before : earlier <+: updates)
    (name : String) : (shown earlier name .fresh).Behind (shown updates name .fresh) := by
  obtain ⟨later, rfl⟩ := before
  obtain ⟨percents, percents'⟩ := List.forall_mem_append.mp percents
  rw [shown_append]
  exact ((bounded_shown percents name).foldl fun u hu => percents' u (List.mem_filter.mp hu).1).2

theorem lookup_map_self {α : Type} (f : String → α) {names : List String} (there : name ∈ names) :
    (names.map fun name => (name, f name)).lookup name = some (f name) := by
  induction names with
  | nil => exact absurd there List.not_mem_nil
  | cons first rest ih =>
    rw [List.map_cons, List.lookup_cons]
    by_cases here : name = first
    · simp [here]
    · rw [beq_eq_false_iff_ne.mpr here]
      exact ih ((List.mem_cons.mp there).resolve_left here)

theorem get?_tracked (known : ∀ u ∈ updates, u.component ∈ names) (there : name ∈ names) :
    (after names updates).get? name = some (shown updates name .fresh) := by
  rw [get?, components_tracked known]
  exact lookup_map_self _ (List.mem_eraseDups.mpr there)

theorem total_eq_sum (components : List (String × Progress)) :
    total components = (components.map fun c => c.2.init + c.2.start).sum := by
  induction components with
  | nil => rfl
  | cons c rest ih => rw [total, ih, List.map_cons, List.sum_cons]

theorem total_le {components : List (String × Progress)}
    (bounded : ∀ c ∈ components, c.2.Bounded) : total components ≤ components.length * 200 := by
  induction components with
  | nil => exact Nat.le_refl 0
  | cons c rest ih =>
    obtain ⟨⟨init, start⟩, bounded⟩ := List.forall_mem_cons.mp bounded
    have others := ih bounded
    rw [total, List.length_cons]
    omega

/-- Nothing is missing from the whole only if nothing is missing from any component. -/
theorem full_of_total {components : List (String × Progress)}
    (bounded : ∀ c ∈ components, c.2.Bounded) (whole : total components = components.length * 200) :
    ∀ c ∈ components, c.2.init = 100 ∧ c.2.start = 100 := by
  induction components with
  | nil => simp
  | cons c rest ih =>
    obtain ⟨⟨init, start⟩, bounded⟩ := List.forall_mem_cons.mp bounded
    have others := total_le bounded
    rw [total, List.length_cons] at whole
    exact List.forall_mem_cons.mpr ⟨by omega, ih bounded (by omega)⟩

theorem total_map_le {f g : String → Progress} (behind : ∀ name, (f name).Behind (g name))
    (names : List String) :
    total (names.map fun name => (name, f name)) ≤ total (names.map fun name => (name, g name)) := by
  induction names with
  | nil => exact Nat.le_refl 0
  | cons name rest ih =>
    obtain ⟨init, start⟩ := behind name
    rw [List.map_cons, List.map_cons, total, total]
    omega

/-- The share is at most 100, so it fits a byte. -/
theorem aggregate_eq {t : Tracker} (nonempty : t.components ≠ [])
    (bounded : ∀ c ∈ t.components, c.2.Bounded) :
    t.aggregate = total t.components * 100 / (200 * t.components.length) ∧ t.aggregate ≤ 100 := by
  have whole := total_le bounded
  have share : total t.components * 100 / (t.components.length * 200) ≤ 100 :=
    Nat.div_le_of_le_mul (by omega)
  have fits : total t.components * 100 / (t.components.length * 200) ≤ maxByte :=
    Nat.le_trans share (by decide)
  rw [aggregate, if_neg (by simpa using nonempty), if_pos fits, Nat.mul_comm 200]
  exact ⟨rfl, share⟩

theorem aggregate_eq_100 {t : Tracker} (nonempty : t.components ≠ [])
    (bounded : ∀ c ∈ t.components, c.2.Bounded) :
    t.aggregate = 100 ↔ ∀ c ∈ t.components, c.2.init = 100 ∧ c.2.start = 100 := by
  refine ⟨fun done => full_of_total bounded ?_, aggregate_full⟩
  have positive := List.length_pos_iff.mpr nonempty
  rw [(aggregate_eq nonempty bounded).1] at done
  -- A share of 100 is not rounded up: it is the whole or more.
  have least := Nat.div_mul_le_self (total t.components * 100) (200 * t.components.length)
  rw [done] at least
  have most := total_le bounded
  omega

theorem bounded_tracked (known : ∀ u ∈ updates, u.component ∈ names)
    (percents : ∀ u ∈ updates, u.percent ≤ 100) :
    ∀ c ∈ (after names updates).components, c.2.Bounded := by
  rw [components_tracked known, List.forall_mem_map]
  exact fun name _ => bounded_shown percents name

theorem tracked_ne_nil (nonempty : names ≠ []) (known : ∀ u ∈ updates, u.component ∈ names) :
    (after names updates).components ≠ [] := by
  obtain ⟨name, there⟩ := List.exists_mem_of_ne_nil names nonempty
  rw [components_tracked known, ne_eq, List.map_eq_nil_iff]
  exact List.ne_nil_of_mem (List.mem_eraseDups.mpr there)

theorem aggregate_le (nonempty : names ≠ []) (known : ∀ u ∈ updates, u.component ∈ names)
    (percents : ∀ u ∈ updates, u.percent ≤ 100) (before : earlier <+: updates) :
    (after names earlier).aggregate ≤ (after names updates).aggregate := by
  have known' : ∀ u ∈ earlier, u.component ∈ names := fun u hu => known u (before.subset hu)
  have percents' : ∀ u ∈ earlier, u.percent ≤ 100 := fun u hu => percents u (before.subset hu)
  rw [(aggregate_eq (tracked_ne_nil nonempty known') (bounded_tracked known' percents')).1,
    (aggregate_eq (tracked_ne_nil nonempty known) (bounded_tracked known percents)).1,
    components_tracked known', components_tracked known, List.length_map, List.length_map]
  have grown := total_map_le (behind_shown percents before) names.eraseDups
  exact Nat.div_le_div_right (Nat.mul_le_mul_right 100 grown)

theorem failed_tracked (known : ∀ u ∈ updates, u.component ∈ names) :
    (after names updates).failed =
      names.eraseDups.filter fun name => (lastStage updates name).isFailed := by
  rw [failed, components_tracked known, List.filter_map, List.map_map]
  have stage (name : String) : (shown updates name .fresh).stage = lastStage updates name :=
    stage_shown updates name
  simp only [Function.comp_def, stage, List.map_id']

end Tracker

/-- While a tracker takes updates of the names that it tracks, in any order and with any phases and
stages, no percentage of a component and no percentage of them together falls back or goes above
100. All together are at 100 exactly if each component is in both phases, and those that failed
are those whose last update says so, in the order of tracking. -/
theorem percentages_only_grow {names : List String} (nonempty : names ≠ []) {updates : List Update}
    (known : ∀ u ∈ updates, u.component ∈ names) (percents : ∀ u ∈ updates, u.percent ≤ 100) :
    let t := Tracker.after names updates
    let tracked := names.eraseDups
    (tracked.Nodup ∧ t.components.map Prod.fst = tracked) ∧
    (∀ name ∈ names, ∀ earlier, earlier <+: updates → ∃ p q,
      (Tracker.after names earlier).get? name = some p ∧ t.get? name = some q ∧
      p.init ≤ q.init ∧ q.init ≤ 100 ∧ p.start ≤ q.start ∧ q.start ≤ 100) ∧
    (∀ earlier, earlier <+: updates → (Tracker.after names earlier).aggregate ≤ t.aggregate) ∧
    (t.aggregate ≤ 100 ∧ t.aggregate =
      (t.components.map fun c => c.2.init + c.2.start).sum * 100 / (200 * t.components.length)) ∧
    (t.aggregate = 100 ↔ ∀ c ∈ t.components, c.2.init = 100 ∧ c.2.start = 100) ∧
    t.failed = tracked.filter fun name => (Tracker.lastStage updates name).isFailed := by
  intro t tracked
  have components := Tracker.components_tracked known
  have bounded := Tracker.bounded_tracked known percents
  have shown := Tracker.tracked_ne_nil nonempty known
  obtain ⟨share, atMost⟩ := Tracker.aggregate_eq shown bounded
  refine ⟨⟨Config.nodup_eraseDups names, ?_⟩, ?_,
    fun earlier before => Tracker.aggregate_le nonempty known percents before, ⟨atMost, ?_⟩,
    Tracker.aggregate_eq_100 shown bounded, Tracker.failed_tracked known⟩
  · rw [components, List.map_map]
    exact List.map_id' _
  · intro name there earlier before
    have known' : ∀ u ∈ earlier, u.component ∈ names := fun u hu => known u (before.subset hu)
    obtain ⟨init, start⟩ := Tracker.behind_shown percents before name
    obtain ⟨init', start'⟩ := Tracker.bounded_shown percents name
    exact ⟨_, _, Tracker.get?_tracked known' there, Tracker.get?_tracked known there, init, init',
      start, start'⟩
  · rw [share, Tracker.total_eq_sum]

/-- One component goes on after a failure, the other one ends with one, and one name is given twice. -/
def mixedUpdates : List Update :=
  [⟨"reader", .init, 40, .initializing⟩, ⟨"writer", .init, 100, .initialized⟩,
    ⟨"reader", .start, 30, .starting⟩, ⟨"reader", .init, 10, .starting⟩,
    ⟨"writer", .start, 20, .failed "gone"⟩, ⟨"writer", .start, 5, .starting⟩,
    ⟨"reader", .start, 90, .failed "late"⟩]

/-- A percentage of 10 after one of 40 changes nothing, and a failure that is not the last word of
a component is not listed. -/
theorem percentages_only_grow_mixed :
    let names := ["writer", "reader", "writer"]
    (∀ u ∈ mixedUpdates, u.component ∈ names) ∧ (∀ u ∈ mixedUpdates, u.percent ≤ 100) ∧
    (Tracker.after names (mixedUpdates.take 4)).aggregate = 57 ∧
    57 ≤ (Tracker.after names mixedUpdates).aggregate ∧
    (Tracker.after names mixedUpdates).aggregate = 100 ∧
    (Tracker.after names mixedUpdates).failed = ["reader"] := by
  intro names
  have known : ∀ u ∈ mixedUpdates, u.component ∈ names := by decide
  have percents : ∀ u ∈ mixedUpdates, u.percent ≤ 100 := by decide
  obtain ⟨-, -, grows, -, full, failed⟩ := percentages_only_grow (by decide) known percents
  have early : (Tracker.after names (mixedUpdates.take 4)).aggregate = 57 := by decide +kernel
  refine ⟨known, percents, early, ?_, full.mpr (by decide +kernel), failed.trans (by decide +kernel)⟩
  rw [← early]
  exact grows _ (List.take_prefix 4 _)

end Pipeworks
