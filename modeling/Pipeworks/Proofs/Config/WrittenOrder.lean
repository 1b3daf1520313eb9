import Mathlib.Algebra.Order.BigOperators.Group.List
import Mathlib.Algebra.Order.Ring.Nat
import Mathlib.Data.List.FinRange
import Pipeworks.Proofs.Config.InPlace

/-!
# References in written order

The places of a tree stand in an order of their own, that of words in a dictionary: a value before
everything in it, and everything in a child before everything in the next one. The references of a
tree are the names that stand at its places in this order. The walk finds them in it although it
keeps the values it still has to visit on a stack, and a declaration lists each of them where it is
mentioned first.
-/

namespace Pipeworks.Config

namespace Value

/-- The addresses of a tree in written order. -/
def addresses (v : Value) : List Address :=
  [] :: (List.finRange v.children.length).flatMap fun i => v.children[i].addresses.map (i.val :: ·)
termination_by v.weight
decreasing_by
  have smaller : v.children[i].weight ≤ (v.children.map weight).sum :=
    List.le_sum_of_mem (List.mem_map_of_mem (List.getElem_mem i.isLt))
  rw [weight_eq v, weightItems_eq_sum]
  exact Nat.lt_one_add_iff.mpr smaller

/-- Something stands exactly at the addresses of a tree. -/
theorem mem_addresses (v : Value) (a : Address) : a ∈ v.addresses ↔ (v.at? a).isSome := by
  induction v using addresses.induct generalizing a with
  | case1 v ih =>
    rw [addresses]
    cases a with
    | nil => simp
    | cons i a =>
      have below : i :: a ∈ (List.finRange v.children.length).flatMap
          (fun i => v.children[i].addresses.map (i.val :: ·)) ↔
          ∃ inside : i < v.children.length, a ∈ v.children[i].addresses := by
        simp [Fin.exists_iff]
      rw [List.mem_cons, below, at?_cons]
      by_cases inside : i < v.children.length
      · simpa [inside] using ih ⟨i, inside⟩ a
      · simp [inside]

/-- The addresses of a tree are in order, so none of them is listed twice. -/
theorem sorted_addresses (v : Value) : v.addresses.Pairwise (· < ·) := by
  induction v using addresses.induct with
  | case1 v ih =>
    rw [addresses, List.pairwise_cons, List.pairwise_flatMap]
    refine ⟨?first, fun i _ => ?inner, ?across⟩
    case first =>
      intro a below
      obtain ⟨i, -, deeper⟩ := List.mem_flatMap.mp below
      obtain ⟨b, -, rfl⟩ := List.mem_map.mp deeper
      exact List.nil_lt_cons _ _
    case inner =>
      rw [List.pairwise_map]
      exact (ih i).imp fun less => List.cons_lt_cons_iff.mpr (.inr ⟨rfl, less⟩)
    case across =>
      refine (List.pairwise_lt_finRange _).imp fun {i j} less => ?_
      simp only [List.forall_mem_map]
      exact fun a _ b _ => List.cons_lt_cons_iff.mpr (.inl less)

theorem itemReferencesRec_eq_flatMap (values : List Value) :
    itemReferencesRec values = values.flatMap referencesRec := by
  induction values with
  | nil => rfl
  | cons v values ih => rw [itemReferencesRec, ih, List.flatMap_cons]

/-- The references of a value: itself, and then those of its children. -/
theorem referencesRec_eq (v : Value) :
    v.referencesRec = v.reference?.toList ++ v.children.flatMap referencesRec := by
  cases v with
  | block entries =>
    rw [referencesRec, ← itemReferencesRec_values, itemReferencesRec_eq_flatMap]
    rfl
  | items values =>
    rw [referencesRec, itemReferencesRec_eq_flatMap]
    rfl
  | _ => rfl

/-- The references of a tree are the names that stand at its addresses. -/
theorem referencesRec_eq_filterMap (v : Value) :
    v.referencesRec = v.addresses.filterMap fun a => (v.at? a).bind reference? := by
  induction v using addresses.induct with
  | case1 v ih =>
    have inside (i : Fin v.children.length) :
        (v.children[i].addresses.map (i.val :: ·)).filterMap (fun a => (v.at? a).bind reference?) =
          v.children[i].referencesRec := by
      rw [ih i, List.filterMap_map]
      simp
    have children : v.children.flatMap referencesRec =
        (List.finRange v.children.length).flatMap fun i => v.children[i].referencesRec := by
      conv_lhs => rw [← List.map_getElem_finRange v.children, List.flatMap_map]
      rfl
    rw [addresses, List.filterMap_cons, List.filterMap_flatMap, referencesRec_eq, children,
      List.flatMap_congr fun i _ => inside i, at?_nil, Option.bind_some]
    cases v.reference? <;> rfl

/-- `names` are the references of a tree as they are written: the names at its places, which are
gone through in order. -/
def Lists (v : Value) (names : List String) : Prop :=
  ∃ places : List Address, places.Pairwise (· < ·) ∧ (∀ a, a ∈ places ↔ (v.at? a).isSome) ∧
    names = places.filterMap fun a => (v.at? a).bind reference?

theorem lists_referencesRec (v : Value) : v.Lists v.referencesRec :=
  ⟨v.addresses, v.sorted_addresses, v.mem_addresses, v.referencesRec_eq_filterMap⟩

end Value

/-! ## Each name once -/

/-- Leaving out other names does not change which of two names comes first. -/
theorem idxOf_lt_of_filter {p : String → Bool} {names : List String} {r s : String}
    (hr : p r = true) (hs : p s = true)
    (before : (names.filter p).idxOf r < (names.filter p).idxOf s) :
    names.idxOf r < names.idxOf s := by
  induction names with
  | nil => simp at before
  | cons name names ih =>
    cases kept : p name with
    | true =>
      rw [List.filter_cons_of_pos kept] at before
      rw [List.idxOf_cons, List.idxOf_cons] at before ⊢
      cases isR : name == r <;> cases isS : name == s <;> simp_all
    | false =>
      have notR : name ≠ r := fun same => by simp [same, hr] at kept
      have notS : name ≠ s := fun same => by simp [same, hs] at kept
      rw [List.filter_cons_of_neg (by simp [kept])] at before
      rw [List.idxOf_cons_ne _ notR, List.idxOf_cons_ne _ notS]
      exact Nat.succ_lt_succ (ih before)

theorem sublist_eraseDups (names : List String) : names.eraseDups.Sublist names := by
  induction names using eraseDups_induction with
  | nil => simp
  | cons name rest ih =>
    rw [List.eraseDups_cons]
    exact (ih.trans List.filter_sublist).cons_cons name

/-- When each name is kept once, it is kept where it stands first. -/
theorem pairwise_eraseDups (names : List String) :
    names.eraseDups.Pairwise fun r s => names.idxOf r < names.idxOf s := by
  induction names using eraseDups_induction with
  | nil => simp
  | cons name rest ih =>
    rw [List.eraseDups_cons, List.pairwise_cons]
    have other {s : String} (hs : s ∈ (rest.filter fun b => !b == name).eraseDups) :
        name ≠ s ∧ (!s == name) = true := by
      have kept := (List.mem_filter.mp (List.mem_eraseDups.mp hs)).2
      exact ⟨fun same => by simp [same] at kept, kept⟩
    refine ⟨fun s hs => ?_, ih.imp_of_mem fun {r s} hr hs before => ?_⟩
    · rw [List.idxOf_cons_self, List.idxOf_cons_ne _ (other hs).1]
      exact Nat.succ_pos _
    · rw [List.idxOf_cons_ne _ (other hr).1, List.idxOf_cons_ne _ (other hs).1]
      exact Nat.succ_lt_succ (idxOf_lt_of_filter (other hr).2 (other hs).2 before)

/-- The walk over a value or a block gives the references of the recursion from the left to the
right, behind those found before; these are the names in the tree in written order. A declaration
refers to the same names, to each of them once, in the order of their first mention. -/
theorem references_as_written :
    (∀ (found : Array String) (v : Value),
      (Value.gather found #[v]).toList = found.toList ++ v.references ∧
      v.references = v.referencesRec ∧ v.Lists v.references) ∧
    (∀ (found : Array String) (b : Block),
      (Value.gather found b.values.reverse.toArray).toList = found.toList ++ b.references ∧
      b.references = Value.entryReferencesRec b ∧ (Value.block b).Lists b.references) ∧
    ∀ d : Declaration, d.references.Nodup ∧ d.references.Sublist d.block.references ∧
      (∀ r, r ∈ d.references ↔ r ∈ d.block.references) ∧
      d.references.Pairwise fun r s => d.block.references.idxOf r < d.block.references.idxOf s := by
  refine ⟨fun found v => ?value, fun found b => ?block, fun d => ?declaration⟩
  case value =>
    rw [v.references_eq]
    refine ⟨?_, rfl, v.lists_referencesRec⟩
    simp [Value.gather_eq, Value.itemReferencesRec]
  case block =>
    rw [b.references_eq]
    refine ⟨?_, rfl, (Value.block b).lists_referencesRec⟩
    simp [Value.gather_eq, Value.itemReferencesRec_values]
  case declaration =>
    exact ⟨nodup_eraseDups _, sublist_eraseDups _, fun r => List.mem_eraseDups,
      pairwise_eraseDups _⟩

end Pipeworks.Config
