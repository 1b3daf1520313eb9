import Mathlib.Data.List.Induction
import Pipeworks.Proofs.Config.Copying
import Pipeworks.Proofs.Config.InPlace
import Pipeworks.Proofs.Config.Insertion

/-!
# Blocks as maps

A block is a list of entries, and nothing in its type keeps a key from standing twice. The blocks
that are made from the empty one are maps all the same: their keys differ and stand in the order in
which they were first put in, and under each stands the value that was stored there last.

A journal beside the block tells what was stored in it. What carries the argument is that a block is
always the one that putting in the entries of its journal one after another makes, although a copy
is built and variables are filled in without putting anything in.
-/

namespace Pipeworks.Config

namespace Block

variable {b c before after : Block} {key k : String} {value old v : Value}

/-! ## Putting in one entry -/

@[simp]
theorem keys_append (b c : Block) : keys (b ++ c) = keys b ++ keys c := List.map_append

@[simp]
theorem keys_cons (e : String × Value) (b : Block) : keys (e :: b) = e.1 :: keys b := rfl

theorem get?_append : get? (b ++ c) k = (b.get? k).or (c.get? k) := List.lookup_append

theorem get?_cons : get? ((key, value) :: b) k = if k = key then some value else b.get? k := by
  by_cases same : k = key
  · simp [get?, same]
  · simp [get?, List.lookup_cons, beq_false_of_ne same, same]

theorem get?_eq_none_iff : b.get? key = none ↔ key ∉ b.keys := by
  simp only [get?, List.lookup_eq_none_iff, keys, List.mem_map, bne_iff_ne]
  exact ⟨fun other ⟨e, he, same⟩ => other e he same.symm,
    fun absent e he same => absent ⟨e, he, same.symm⟩⟩

theorem contains_iff : b.contains key = true ↔ key ∈ b.keys := by
  rw [contains, Option.isSome_iff_ne_none, ne_eq, get?_eq_none_iff, not_not]

theorem replace_append (fresh : key ∉ before.keys) :
    replace (before ++ (key, old) :: after) key value = before ++ (key, value) :: after := by
  induction before with
  | nil => simp [replace]
  | cons e before ih =>
    obtain ⟨other, fresh⟩ := not_or.mp (List.mem_cons.not.mp fresh)
    rw [List.cons_append, replace, if_neg (by simpa using other), ih fresh, List.cons_append]

/-- A key that is there keeps its place. -/
theorem put_append (fresh : key ∉ before.keys) :
    put (before ++ (key, old) :: after) key value = before ++ (key, value) :: after := by
  have found : get? (before ++ (key, old) :: after) key ≠ none := by
    rw [ne_eq, get?_eq_none_iff]
    simp
  obtain ⟨there, found⟩ := Option.ne_none_iff_exists'.mp found
  rw [put, insert, found]
  exact replace_append fresh

theorem put_of_notMem (fresh : key ∉ b.keys) : b.put key value = b ++ [(key, value)] := by
  rw [put, insert, get?_eq_none_iff.mpr fresh]

/-- A key that is there stands somewhere for the first time. -/
theorem split_of_mem (there : key ∈ b.keys) :
    ∃ (before : Block) (old : Value) (after : Block),
      b = before ++ (key, old) :: after ∧ key ∉ before.keys := by
  induction b with
  | nil => simp [keys] at there
  | cons e b ih =>
    by_cases same : e.1 = key
    · exact ⟨[], e.2, b, by simp [← same], by simp [keys]⟩
    · obtain there | there := List.mem_cons.mp there
      · exact absurd there.symm same
      · obtain ⟨before, old, after, rfl, fresh⟩ := ih there
        exact ⟨e :: before, old, after, rfl, by simp [Ne.symm same, fresh]⟩

theorem keys_put (b : Block) (key : String) (value : Value) :
    (b.put key value).keys = if key ∈ b.keys then b.keys else b.keys ++ [key] := by
  split
  · rename_i there
    obtain ⟨before, old, after, rfl, fresh⟩ := split_of_mem there
    simp [put_append fresh]
  · rename_i absent
    simp [put_of_notMem absent, keys]

theorem get?_put (b : Block) (key : String) (value : Value) (k : String) :
    (b.put key value).get? k = if k = key then some value else b.get? k := by
  by_cases there : key ∈ b.keys
  · obtain ⟨before, old, after, rfl, fresh⟩ := split_of_mem there
    rw [put_append fresh, get?_append, get?_append, get?_cons, get?_cons]
    split
    · subst k
      rw [get?_eq_none_iff.mpr fresh, Option.none_or]
    · rfl
  · rw [put_of_notMem there, get?_append, get?_cons]
    split
    · subst k
      rw [get?_eq_none_iff.mpr there, Option.none_or]
    · exact Option.or_none

/-- Where keys differ, the key of an entry stands neither before nor after it. -/
theorem Keyed.apart (keyed : Keyed (before ++ (key, value) :: after)) :
    key ∉ before.keys ∧ key ∉ after.keys := by
  simp only [Keyed, keys_append, keys_cons, List.nodup_append, List.nodup_cons] at keyed
  exact ⟨fun listed => keyed.2.2 _ listed _ List.mem_cons_self rfl, keyed.2.1.1⟩

/-- Entries under other keys stay as they are. -/
theorem map_of_notMem (fresh : key ∉ b.keys) :
    b.map (fun e => if e.1 = key then (key, value) else e) = b := by
  refine (List.map_congr_left fun e he => ?_).trans (List.map_id b)
  exact if_neg fun same => fresh (List.mem_map.mpr ⟨e, he, same⟩)

/-- Putting in an entry changes the value under its key where the key stands, or makes the block
longer by the entry, and changes nothing else. -/
theorem put_eq_map (keyed : b.Keyed) (key : String) (value : Value) :
    b.put key value = b.map (fun e => if e.1 = key then (key, value) else e) ++
      if key ∈ b.keys then [] else [(key, value)] := by
  split
  · rename_i there
    obtain ⟨before, old, after, rfl, fresh⟩ := split_of_mem there
    rw [put_append fresh, List.append_nil, List.map_append, List.map_cons, if_pos rfl,
      map_of_notMem fresh, map_of_notMem keyed.apart.2]
  · rename_i absent
    rw [put_of_notMem absent, map_of_notMem absent]

theorem insert_fst (b : Block) (key : String) (value : Value) :
    (b.insert key value).1 = b.get? key := by
  rw [insert]
  cases b.get? key <;> rfl

/-! ## Putting in many entries -/

theorem ofList_concat (entries : List (String × Value)) (key : String) (value : Value) :
    ofList (entries ++ [(key, value)]) = (ofList entries).put key value := by
  rw [ofList, List.foldl_append, List.foldl_cons, List.foldl_nil, ofList]

/-- The keys stand in the order in which they were first put in. -/
theorem keys_ofList (entries : List (String × Value)) :
    (ofList entries).keys = (entries.map (·.1)).eraseDups := by
  induction entries using List.reverseRecOn with
  | nil => rfl
  | append_singleton entries e ih =>
    rw [ofList_concat, keys_put, ih, List.map_append, List.eraseDups_append]
    by_cases there : e.1 ∈ entries.map (·.1)
    · simp [there, List.removeAll]
    · simp [there, List.removeAll, List.eraseDups_cons]

/-- Under each key stands what was put in last. -/
theorem get?_ofList (entries : List (String × Value)) (key : String) :
    (ofList entries).get? key = entries.reverse.lookup key := by
  induction entries using List.reverseRecOn with
  | nil => rfl
  | append_singleton entries e ih =>
    rw [ofList_concat, get?_put, ih, List.reverse_append, List.reverse_singleton]
    exact get?_cons.symm

theorem keyed_ofList (entries : List (String × Value)) : (ofList entries).Keyed := by
  rw [Keyed, keys_ofList]
  exact nodup_eraseDups _

/-- Putting in another value under each key of a block leaves the keys where they stand. -/
theorem foldl_put_map (f : Value → Value) (done : Block) {rest : Block}
    (keyed : Keyed (done ++ rest)) :
    (rest.map fun e => (e.1, f e.2)).foldl (fun b e => b.put e.1 e.2) (done ++ rest) =
      done ++ rest.map fun e => (e.1, f e.2) := by
  induction rest generalizing done with
  | nil => rfl
  | cons e rest ih =>
    have again : Keyed (done ++ [(e.1, f e.2)] ++ rest) := by
      simpa [Keyed, keys] using keyed
    rw [List.map_cons, List.foldl_cons, put_append keyed.apart.1, ← List.singleton_append,
      ← List.append_assoc, ih _ again, List.append_assoc, List.singleton_append]

/-- The entries of a block are its keys with what stands under them. -/
theorem eq_filterMap (keyed : b.Keyed) :
    b = b.keys.filterMap fun k => (b.get? k).map (k, ·) := by
  have each : ∀ e ∈ b, (b.get? e.1).map (e.1, ·) = some e := by
    intro e inside
    obtain ⟨before, after, rfl⟩ := List.append_of_mem inside
    rw [get?_append, get?_eq_none_iff.mpr keyed.apart.1, Option.none_or, get?_cons, if_pos rfl]
    rfl
  rw [keys, List.filterMap_map]
  exact ((List.filterMap_congr each).trans List.filterMap_some).symm

theorem resolve_eq_map (env : Environment) (b : Block) :
    b.resolve env = b.map fun e => (e.1, e.2.resolve env) := by
  rw [resolve_eq, Value.mapEntriesRec_eq_map]
  simp only [Value.resolve_eq]

end Block

/-- A change of a block. -/
inductive Edit where
  /-- Put a value under a key. -/
  | insert (key : String) (value : Value)
  /-- Start anew, with entries put in one after another. -/
  | collect (entries : List (String × Value))
  /-- Overwrite the value under a key where the key is there. -/
  | write (key : String) (value : Value)
  /-- Overwrite the value at a place. -/
  | overwrite (place : Nat) (value : Value)
  /-- Go on with a copy. -/
  | copy
  /-- Fill in the variables. -/
  | resolve (env : Environment)

/-- A block, and what was stored in it, the oldest first. -/
structure Journal where
  block : Block := []
  stored : List (String × Value) := []

namespace Journal

/-- What a change makes of the block, and which values it stores under which keys. -/
def edit (j : Journal) : Edit → Journal
  | .insert key value => ⟨(j.block.insert key value).2, j.stored ++ [(key, value)]⟩
  | .collect entries => ⟨.ofList entries, entries⟩
  | .write key value =>
    if j.block.contains key then ⟨j.block.replace key value, j.stored ++ [(key, value)]⟩ else j
  | .overwrite place value =>
    match j.block[place]? with
    | some (key, _) => ⟨j.block.set place (key, value), j.stored ++ [(key, value)]⟩
    | none => j
  | .copy => { j with block := j.block.copy }
  | .resolve env =>
    ⟨j.block.resolve env, j.stored ++ j.block.map fun e => (e.1, e.2.resolve env)⟩

/-- A block that is the one its journal makes. -/
def IsTrue (j : Journal) : Prop :=
  j.block = .ofList j.stored

variable {j : Journal}

theorem IsTrue.keyed (isTrue : j.IsTrue) : j.block.Keyed :=
  isTrue ▸ Block.keyed_ofList j.stored

/-- Each change stores what the journal says and nothing else. -/
theorem IsTrue.edit (isTrue : j.IsTrue) (e : Edit) : (j.edit e).IsTrue := by
  cases e with
  | insert key value =>
    rw [IsTrue, Journal.edit, Block.ofList_concat, ← isTrue]
    rfl
  | collect entries => rfl
  | write key value =>
    rw [Journal.edit]
    split
    · rename_i there
      obtain ⟨old, found⟩ := Option.isSome_iff_exists.mp there
      rw [IsTrue, Block.ofList_concat, ← isTrue, Block.put, Block.insert, found]
    · exact isTrue
  | overwrite place value =>
    rw [Journal.edit]
    split
    · rename_i key old here
      obtain ⟨inside, here⟩ := List.getElem?_eq_some_iff.mp here
      obtain ⟨before, after, whole, -, changed⟩ :
          ∃ before after, j.block = before ++ j.block[place] :: after ∧ before.length = place ∧
            j.block.set place (key, value) = before ++ (key, value) :: after :=
        List.exists_of_set inside
      rw [here] at whole
      have keyed := isTrue.keyed
      rw [whole] at keyed
      rw [IsTrue, Block.ofList_concat, ← isTrue, changed, whole, Block.put_append keyed.apart.1]
    · exact isTrue
  | copy => rw [IsTrue, Journal.edit, Block.copy_eq, ← isTrue]
  | resolve env =>
    have filled := Block.foldl_put_map (·.resolve env) [] isTrue.keyed
    rw [IsTrue, Journal.edit, Block.ofList, List.foldl_append, ← Block.ofList, ← isTrue,
      Block.resolve_eq_map]
    exact filled.symm

/-- The block and the journal after changes of the empty block. -/
def after (edits : List Edit) : Journal :=
  edits.foldl Journal.edit {}

theorem isTrue_after (edits : List Edit) : (after edits).IsTrue := by
  rw [after]
  have start : IsTrue {} := rfl
  generalize ({} : Journal) = j at start ⊢
  induction edits generalizing j with
  | nil => exact start
  | cons e edits ih => exact ih _ (start.edit e)

end Journal

/-- After any changes of the empty block its keys differ and stand in the order in which they were
stored first, and under each key stands the value stored last. What is read off the block agrees
with that, and putting in an entry returns the value stored last under its key and changes nothing
but it. -/
theorem map_after_edits (edits : List Edit) :
    let j := Journal.after edits
    j.block.keys.Nodup ∧
    j.block.keys = (j.stored.map (·.1)).eraseDups ∧
    (∀ key, j.block.get? key = j.stored.reverse.lookup key) ∧
    (∀ key, j.block.contains key = true ↔ key ∈ j.stored.map (·.1)) ∧
    (j.block = j.block.keys.filterMap fun key => (j.block.get? key).map (key, ·)) ∧
    j.block.length = (j.stored.map (·.1)).eraseDups.length ∧
    ∀ key value, (j.block.insert key value).1 = j.stored.reverse.lookup key ∧
      (j.block.insert key value).2 =
        j.block.map (fun e => if e.1 = key then (key, value) else e) ++
          if key ∈ j.block.keys then [] else [(key, value)] := by
  intro j
  have isTrue : j.block = .ofList j.stored := Journal.isTrue_after edits
  have keys : j.block.keys = (j.stored.map (·.1)).eraseDups := by
    rw [isTrue, Block.keys_ofList]
  have stored (key : String) : j.block.get? key = j.stored.reverse.lookup key := by
    rw [isTrue, Block.get?_ofList]
  have keyed : j.block.Keyed := (Journal.isTrue_after edits).keyed
  refine ⟨keyed, keys, stored, fun key => ?_, Block.eq_filterMap keyed, ?_, fun key value => ?_⟩
  · rw [Block.contains_iff, keys, List.mem_eraseDups]
  · rw [← keys, Block.keys, List.length_map]
  · exact ⟨(j.block.insert_fst key value).trans (stored key), Block.put_eq_map keyed key value⟩

end Pipeworks.Config
