import Mathlib.Algebra.Ring.Nat
import Pipeworks.Proofs.Config.Filling

/-!
# Filling in place

The variables of a tree can also be filled in without building it anew: a list of pending
addresses is worked off from its end, a variable is overwritten where it stands, and the
addresses below a container are put at the end of the list. The main statement is that this
gives the same tree as `Value.resolve`, and both the same as the recursion over the tree.

What carries it is that the tree still to be reached is the tree as it is with the recursion
done at every pending address, one after another. Overwriting a variable keeps all weights, so
the work that is pending gets less with every address.
-/

namespace Pipeworks.Config

/-- The way to a value in a tree: the child to go into at each level, the root first. -/
abbrev Address := List Nat

namespace Value

variable {f g : Value → Value} {v w : Value} {a b : Address} {env : Environment}

/-! ## Addresses -/

/-- The values that stand directly in a container. -/
def children : Value → List Value
  | .block entries => Block.values entries
  | .items values => values
  | _ => []

/-- The value at an address. -/
def at? (v : Value) : Address → Option Value
  | [] => some v
  | i :: a => v.children[i]?.bind (at? · a)

/-- A value with one of its children changed. -/
def modifyChild (f : Value → Value) (i : Nat) : Value → Value
  | .block entries => .block (entries.modify i fun e => (e.1, f e.2))
  | .items values => .items (values.modify i f)
  | v => v

/-- A value changed at an address. -/
def modifyAt (f : Value → Value) : Address → Value → Value
  | [] => f
  | i :: a => modifyChild (modifyAt f a) i

/-- The addresses of the children of the value at an address. -/
def addressesBelow (v : Value) (a : Address) : List Address :=
  (List.range v.children.length).map fun i => a ++ [i]

@[simp]
theorem at?_nil (v : Value) : v.at? [] = some v := rfl

@[simp]
theorem at?_cons (v : Value) (i : Nat) (a : Address) :
    v.at? (i :: a) = v.children[i]?.bind (at? · a) := rfl

theorem at?_append (v : Value) (a b : Address) : v.at? (a ++ b) = (v.at? a).bind (at? · b) := by
  induction a generalizing v with
  | nil => rfl
  | cons i a ih => simp [ih, Option.bind_assoc]

theorem children_modifyChild (f : Value → Value) (i : Nat) (v : Value) :
    (v.modifyChild f i).children = v.children.modify i f := by
  cases v with
  | block entries =>
    refine List.ext_getElem? fun j => ?_
    simp only [modifyChild, children, Block.values, List.getElem?_map, List.getElem?_modify]
    cases entries[j]? with
    | none => rfl
    | some e =>
      by_cases same : i = j <;> simp [same]
  | items values => rfl
  | _ => simp [modifyChild, children]

theorem modifyAt_append (f : Value → Value) (a b : Address) :
    modifyAt f (a ++ b) = modifyAt (modifyAt f b) a := by
  induction a with
  | nil => rfl
  | cons i a ih => rw [List.cons_append, modifyAt, ih, modifyAt]

theorem modifyChild_modifyChild (f g : Value → Value) (i : Nat) (v : Value) :
    modifyChild g i (modifyChild f i v) = modifyChild (g ∘ f) i v := by
  cases v with
  | block entries => simp [modifyChild, List.modify_modify_eq, Function.comp_def]
  | items values => simp [modifyChild, List.modify_modify_eq]
  | _ => rfl

theorem modifyAt_modifyAt (f g : Value → Value) (a : Address) (v : Value) :
    modifyAt g a (modifyAt f a v) = modifyAt (g ∘ f) a v := by
  induction a generalizing f g v with
  | nil => rfl
  | cons i a ih =>
    have inner : modifyAt g a ∘ modifyAt f a = modifyAt (g ∘ f) a := funext (ih f g)
    rw [modifyAt, modifyAt, modifyChild_modifyChild, inner, modifyAt]

/-- Only what stands at the address matters for a change there. -/
theorem modifyAt_congr (same : ∀ w, v.at? a = some w → f w = g w) :
    modifyAt f a v = modifyAt g a v := by
  induction a generalizing v with
  | nil => exact same v rfl
  | cons i a ih =>
    have child (w : Value) (here : v.children[i]? = some w) : modifyAt f a w = modifyAt g a w :=
      ih fun x hx => same x (by simp [here, hx])
    cases v with
    | block entries =>
      refine congrArg Value.block (List.ext_getElem? fun j => ?_)
      rw [List.getElem?_modify, List.getElem?_modify]
      cases here : entries[j]? with
      | none => rfl
      | some e =>
        by_cases same : i = j
        · subst same
          simp [child e.2 (by simp [children, Block.values, here])]
        · simp [same]
    | items values =>
      refine congrArg Value.items (List.ext_getElem? fun j => ?_)
      rw [List.getElem?_modify, List.getElem?_modify]
      cases here : values[j]? with
      | none => rfl
      | some w =>
        by_cases same : i = j
        · subst same
          simp [child w here]
        · simp [same]
    | _ => rfl

theorem modifyAt_id (a : Address) (v : Value) : modifyAt id a v = v := by
  induction a generalizing v with
  | nil => rfl
  | cons i a ih =>
    rw [modifyAt, show modifyAt id a = id from funext ih]
    cases v with
    | block entries => exact congrArg Value.block (List.modify_id i entries)
    | items values => exact congrArg Value.items (List.modify_id i values)
    | _ => rfl

/-! ## Pending work -/

/-- The number of nodes below an address; an address that leads nowhere counts for itself. -/
def weightAt (v : Value) (a : Address) : Nat :=
  ((v.at? a).map weight).getD 1

theorem weight_eq (v : Value) : v.weight = 1 + weightItems v.children := by
  cases v with
  | block entries => rw [weight, children, Block.weightItems_values]
  | items values => rw [weight, children]
  | _ => rfl

theorem weightAt_pos (v : Value) (a : Address) : 0 < v.weightAt a := by
  rw [weightAt]
  cases v.at? a with
  | none => exact Nat.one_pos
  | some w => exact w.weight_pos

theorem weightAt_cons (v : Value) (i : Nat) (a : Address) :
    v.weightAt (i :: a) = (v.children[i]?.map (weightAt · a)).getD 1 := by
  rw [weightAt, at?_cons]
  cases v.children[i]? <;> rfl

theorem weightItems_eq_sum (values : List Value) :
    weightItems values = (values.map weight).sum := by
  induction values with
  | nil => rfl
  | cons v values ih => rw [weightItems, ih, List.map_cons, List.sum_cons]

/-- Going into a value is less work than the value. -/
theorem sum_weightAt_below (here : v.at? a = some w) :
    ((w.addressesBelow a).map v.weightAt).sum + 1 = w.weight := by
  have each : (w.addressesBelow a).map v.weightAt = w.children.map weight := by
    refine List.ext_getElem? fun i => ?_
    simp only [addressesBelow, List.map_map, List.getElem?_map]
    by_cases inside : i < w.children.length
    · simp [inside, weightAt, at?_append, here]
    · simp [Nat.not_lt.mp inside]
  rw [each, weight_eq, weightItems_eq_sum, Nat.add_comm]

theorem weightItems_modify {values : List Value} {i : Nat}
    (same : ∀ w, values[i]? = some w → (f w).weight = w.weight) :
    weightItems (values.modify i f) = weightItems values := by
  rw [weightItems_eq_sum, weightItems_eq_sum]
  refine congrArg List.sum (List.ext_getElem? fun j => ?_)
  rw [List.getElem?_map, List.getElem?_map, List.getElem?_modify]
  cases here : values[j]? with
  | none => rfl
  | some w =>
    by_cases own : i = j
    · subst own
      simp [same w here]
    · simp [own]

/-- Putting a leaf where a leaf stands leaves as much below every address as before. -/
theorem weightAt_modifyAt (here : v.at? a = some w) (before : w.children = [])
    (after : (f w).children = []) (b : Address) : (modifyAt f a v).weightAt b = v.weightAt b := by
  induction a generalizing v b with
  | nil =>
    obtain rfl := Option.some.inj here
    cases b with
    | nil => simp [modifyAt, weightAt, weight_eq, before, after]
    | cons j b => simp [modifyAt, weightAt_cons, before, after]
  | cons i a ih =>
    obtain ⟨child, stands, here⟩ := Option.bind_eq_some_iff.mp here
    have inside (c : Value) (hc : v.children[i]? = some c) (b : Address) :
        (modifyAt f a c).weightAt b = c.weightAt b := by
      obtain rfl : child = c := Option.some.inj (stands.symm.trans hc)
      exact ih here b
    cases b with
    | nil =>
      have whole (v : Value) : v.weightAt [] = 1 + weightItems v.children := weight_eq v
      rw [modifyAt, whole, whole, children_modifyChild, weightItems_modify]
      exact fun c hc => inside c hc []
    | cons j b =>
      rw [modifyAt, weightAt_cons, weightAt_cons, children_modifyChild, List.getElem?_modify]
      cases hc : v.children[j]? with
      | none => rfl
      | some c =>
        by_cases own : i = j
        · subst own
          simp [inside c hc b]
        · simp [own]

theorem children_fill (env : Environment) (name : String) :
    (env.fill (.variable name)).children = [] := by
  rw [Environment.fill]
  cases env name <;> rfl

/-- Fill in what stands at or below pending addresses, which are taken from the front: a variable
is overwritten where it stands, and the addresses below a container become pending, the last of
them first. -/
def fillFrom (env : Environment) (root : Value) (pending : List Address) : Value :=
  match pending with
  | [] => root
  | a :: rest =>
    match _here : root.at? a with
    | none => fillFrom env root rest
    | some (.variable name) =>
      fillFrom env (modifyAt (fun _ => env.fill (.variable name)) a root) rest
    | some v => fillFrom env root ((v.addressesBelow a).reverse ++ rest)
termination_by (pending.map root.weightAt).sum
decreasing_by
  · have := root.weightAt_pos a
    rw [List.map_cons, List.sum_cons]
    omega
  · have := root.weightAt_pos a
    have same := weightAt_modifyAt (f := fun _ => env.fill (.variable name)) _here rfl
      (children_fill env name)
    rw [funext same, List.map_cons, List.sum_cons]
    omega
  · have less := sum_weightAt_below _here
    have own : root.weightAt a = v.weight := by rw [weightAt, _here]; rfl
    rw [List.map_append, List.sum_append, List.map_reverse, List.sum_reverse, List.map_cons,
      List.sum_cons]
    omega

/-- A value with its variables filled in where they stand. -/
def fillInPlace (env : Environment) (v : Value) : Value :=
  fillFrom env v [[]]

end Value

/-- A block with its variables filled in where they stand. -/
def Block.fillInPlace (env : Environment) (b : Block) : Block :=
  match Value.fillFrom env (.block b) ((Value.block b).addressesBelow []).reverse with
  | .block entries => entries
  | _ => []

namespace Value

variable {f g : Value → Value} {v w : Value} {a b : Address} {env : Environment}

/-! ## The recursion -/

theorem mapItemsRec_eq_map (f : Value → Value) (values : List Value) :
    mapItemsRec f values = values.map (mapLeavesRec f) := by
  induction values with
  | nil => rfl
  | cons v values ih => rw [mapItemsRec, ih, List.map_cons]

theorem mapEntriesRec_eq_map (f : Value → Value) (entries : List (String × Value)) :
    mapEntriesRec f entries = entries.map fun e => (e.1, mapLeavesRec f e.2) := by
  induction entries with
  | nil => rfl
  | cons e entries ih => rw [mapEntriesRec, ih, List.map_cons]

/-- Changing every place of a list from the last to the first changes the whole list. -/
theorem foldl_modify_reverse_range {α : Type} (f : α → α) (l : List α) :
    (List.range l.length).reverse.foldl (fun l i => l.modify i f) l = l.map f := by
  induction l with
  | nil => rfl
  | cons x l ih =>
    have tail (is : List Nat) (l : List α) :
        (is.map Nat.succ).foldl (fun l i => l.modify i f) (x :: l) =
          x :: is.foldl (fun l i => l.modify i f) l := by
      induction is generalizing l with
      | nil => rfl
      | cons i is ih => exact ih (l.modify i f)
    rw [List.length_cons, List.range_succ_eq_map, List.reverse_cons, ← List.map_reverse,
      List.foldl_append, tail, ih]
    rfl

/-- The recursion over a value that is no variable is the recursion over its children, one after
another from the last. -/
theorem foldl_modifyChild (novar : ∀ name, v ≠ .variable name) :
    (List.range v.children.length).reverse.foldl
      (fun v i => modifyChild (mapLeavesRec env.fill) i v) v = mapLeavesRec env.fill v := by
  cases v with
  | block entries =>
    have inside := foldl_modify_reverse_range (fun e => (e.1, mapLeavesRec env.fill e.2)) entries
    have size : (block entries).children.length = entries.length := List.length_map ..
    rw [mapLeavesRec, mapEntriesRec_eq_map, ← inside, size]
    exact List.foldl_hom Value.block fun _ _ => rfl
  | items values =>
    rw [mapLeavesRec, mapItemsRec_eq_map, ← foldl_modify_reverse_range]
    exact List.foldl_hom Value.items fun _ _ => rfl
  | «variable» name => exact absurd rfl (novar name)
  | _ => rfl

/-- Changes at the children of the value at an address are one change at that address. -/
theorem foldl_modifyAt_below (f : Value → Value) (a : Address) (is : List Nat) (root : Value) :
    (is.map fun i => a ++ [i]).foldl (fun root a => modifyAt f a root) root =
      modifyAt (fun v => is.foldl (fun v i => modifyChild f i v) v) a root := by
  induction is generalizing root with
  | nil => exact (modifyAt_id a root).symm
  | cons i is ih =>
    rw [List.map_cons, List.foldl_cons, ih, modifyAt_append, modifyAt_modifyAt]
    rfl

/-- Working off pending addresses does the recursion at each of them. -/
theorem fillFrom_eq (env : Environment) (root : Value) (pending : List Address) :
    fillFrom env root pending =
      pending.foldl (fun root a => modifyAt (mapLeavesRec env.fill) a root) root := by
  fun_induction fillFrom env root pending with
  | case1 root => rfl
  | case2 root a rest nowhere ih =>
    have nothing : modifyAt (mapLeavesRec env.fill) a root = modifyAt id a root :=
      modifyAt_congr fun w here => by simp [nowhere] at here
    rw [ih, List.foldl_cons, nothing, modifyAt_id]
  | case3 root a rest name here ih =>
    rw [ih, List.foldl_cons]
    refine congrArg (List.foldl _ · rest) (modifyAt_congr fun w here' => ?_)
    obtain rfl := Option.some.inj (here.symm.trans here')
    rfl
  | case4 root a rest v novar here ih =>
    rw [ih, List.foldl_append, List.foldl_cons, addressesBelow, ← List.map_reverse,
      foldl_modifyAt_below]
    refine congrArg (List.foldl _ · rest) (modifyAt_congr fun w here' => ?_)
    obtain rfl := Option.some.inj (here.symm.trans here')
    exact foldl_modifyChild novar

theorem fillInPlace_eq (env : Environment) (v : Value) : v.fillInPlace env = v.resolve env := by
  rw [fillInPlace, fillFrom_eq, resolve, mapLeaves_eq]
  rfl

/-! ## What is filled in -/

/-- Filling in keeps the shape of a tree, and fills in what stands at each address. -/
theorem at?_mapLeavesRec (env : Environment) (v : Value) (a : Address) :
    (mapLeavesRec env.fill v).at? a = (v.at? a).map (mapLeavesRec env.fill) := by
  induction a generalizing v with
  | nil => rfl
  | cons i a ih =>
    have children : (mapLeavesRec env.fill v).children =
        v.children.map (mapLeavesRec env.fill) := by
      cases v with
      | block entries =>
        simp [mapLeavesRec, mapEntriesRec_eq_map, children, Block.values, Function.comp_def]
      | items values => rw [mapLeavesRec, mapItemsRec_eq_map, children, children]
      | «variable» name => exact children_fill env name
      | _ => rfl
    rw [at?_cons, at?_cons, children, List.getElem?_map]
    cases v.children[i]? with
    | none => rfl
    | some child => exact ih child

theorem mapLeavesRec_ne_variable (env : Environment) (v : Value) (name : String) :
    mapLeavesRec env.fill v ≠ .variable name := by
  cases v with
  | «variable» name =>
    rw [mapLeavesRec, Environment.fill]
    cases env name <;> simp
  | _ => simp [mapLeavesRec, Environment.fill]

mutual

/-- What is filled in stays as it is. -/
theorem mapLeavesRec_filled {v v' : Value} (env' : Environment) (filled : Filled env v v') :
    mapLeavesRec env'.fill v' = v' := by
  cases filled with
  | kept leaf fixed =>
    cases v with
    | «variable» name => exact absurd rfl (fixed name)
    | block entries => simp [isLeaf] at leaf
    | items values => simp [isLeaf] at leaf
    | _ => rfl
  | set | unset => rfl
  | block inside => rw [mapLeavesRec, mapEntriesRec_filled env' inside]
  | items inside => rw [mapLeavesRec, mapItemsRec_filled env' inside]

theorem mapEntriesRec_filled {entries entries' : List (String × Value)} (env' : Environment)
    (filled : FilledEntries env entries entries') :
    mapEntriesRec env'.fill entries' = entries' := by
  cases filled with
  | nil => rfl
  | cons first others =>
    rw [mapEntriesRec, mapLeavesRec_filled env' first, mapEntriesRec_filled env' others]

theorem mapItemsRec_filled {values values' : List Value} (env' : Environment)
    (filled : FilledItems env values values') : mapItemsRec env'.fill values' = values' := by
  cases filled with
  | nil => rfl
  | cons first others =>
    rw [mapItemsRec, mapLeavesRec_filled env' first, mapItemsRec_filled env' others]

end

theorem references_eq (v : Value) : v.references = v.referencesRec := by
  simp [references, gather_eq, itemReferencesRec]

theorem resolve_eq (env : Environment) (v : Value) :
    v.resolve env = mapLeavesRec env.fill v := mapLeaves_eq env.fill v

end Value

namespace Block

theorem resolve_eq (env : Environment) (b : Block) :
    b.resolve env = Value.mapEntriesRec env.fill b := mapLeaves_eq env.fill b

theorem fillInPlace_eq (env : Environment) (b : Block) : b.fillInPlace env = b.resolve env := by
  have inside := @Value.foldl_modifyChild (.block b) env (by simp)
  rw [fillInPlace, Value.fillFrom_eq, Value.addressesBelow, ← List.map_reverse,
    Value.foldl_modifyAt_below, Value.modifyAt, inside, resolve_eq]
  rfl

end Block

/-- Filling in the variables of a value or of a block where they stand gives what `resolve` gives,
and that is the recursion that replaces each variable by its text, or by the absent value where it
is not set, and keeps everything else. So no variable stands at any address, the references are
the same, and nothing changes when the variables are filled in again, in whatever environment. -/
theorem fill_in_place_structural (env : Environment) :
    (∀ v : Value, v.fillInPlace env = v.resolve env ∧
      v.resolve env = v.mapLeavesRec env.fill ∧
      (∀ a name, (v.resolve env).at? a ≠ some (.variable name)) ∧
      (v.resolve env).references = v.references ∧
      ∀ env', (v.resolve env).resolve env' = v.resolve env) ∧
    ∀ b : Block, b.fillInPlace env = b.resolve env ∧
      b.resolve env = Value.mapEntriesRec env.fill b ∧
      (b.resolve env).keys = b.keys ∧
      (∀ a name, (Value.block (b.resolve env)).at? a ≠ some (.variable name)) ∧
      (b.resolve env).references = b.references ∧
      ∀ env', (b.resolve env).resolve env' = b.resolve env := by
  have free (v : Value) (a : Address) (name : String) :
      (v.mapLeavesRec env.fill).at? a ≠ some (.variable name) := by
    rw [Value.at?_mapLeavesRec]
    cases v.at? a with
    | none => simp
    | some w => exact fun same => Value.mapLeavesRec_ne_variable env w name (Option.some.inj same)
  constructor
  · intro v
    have filled := Value.filled_mapLeavesRec env v
    simp only [v.fillInPlace_eq env, Value.resolve_eq, Value.references_eq]
    exact ⟨trivial, trivial, free v, Value.referencesRec_filled filled,
      fun env' => Value.mapLeavesRec_filled env' filled⟩
  · intro b
    have filled := Value.filled_mapEntriesRec env b
    have keys : Block.keys (Value.mapEntriesRec env.fill b) = b.keys := by
      simp [Value.mapEntriesRec_eq_map, Block.keys, Function.comp_def]
    simp only [b.fillInPlace_eq env, Block.resolve_eq, Block.references_eq]
    exact ⟨trivial, trivial, keys, free (.block b), Value.entryReferencesRec_filled filled,
      fun env' => Value.mapEntriesRec_filled env' filled⟩

end Pipeworks.Config
