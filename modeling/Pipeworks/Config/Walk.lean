import Pipeworks.Config.Block

/-!
# Walking a tree without recursion

Configuration trees may be nested to any depth, so the walks keep their pending
work in a list. `Value.references` collects the references of a tree depth
first in written order. `Value.mapLeaves` rebuilds a tree with a function
applied to each leaf; the containers under way are frames that hold what is
built already and what is still to visit. Beside it stands `Value.mapLeavesRec`,
the same map by recursion. `Block.copy` builds a block anew; its containers wait
on the stack for the copies of their children.
-/

namespace Pipeworks.Config

namespace Value

theorem weightItems_reverse (values : List Value) :
    weightItems values.reverse = weightItems values := by
  induction values with
  | nil => rfl
  | cons v values ih =>
    rw [List.reverse_cons, weightItems_append, ih, weightItems, weightItems, weightItems]
    omega

theorem toList_of_back? {pending : Array Value} {v : Value} (last : pending.back? = some v) :
    pending.toList = pending.pop.toList ++ [v] := by
  obtain ⟨rest, rfl⟩ := Array.back?_eq_some_iff.mp last
  simp

/-- Add the references in pending values to those in `found`. The pending values are worked off from
their end, so siblings stand among them in reverse. -/
def gather (found : Array String) (pending : Array Value) : Array String :=
  match _last : pending.back? with
  | none => found
  | some v =>
    match v with
    | .reference name => gather (found.push name) pending.pop
    | .block entries => gather found (pending.pop ++ (Block.values entries).reverse)
    | .items values => gather found (pending.pop ++ values.reverse)
    | .text _ | .flag _ | .number _ | .variable _ | .absent => gather found pending.pop
termination_by weightItems pending.toList
decreasing_by
  all_goals
    rw [toList_of_back? _last]
    simp only [Array.toList_appendList, weightItems_append, weightItems_reverse, weightItems, weight,
      Block.weightItems_values]
    omega

/-- The references of a value, depth first in written order. -/
def references (v : Value) : List String :=
  (gather #[] #[v]).toList

/-- A container being rebuilt: what is done stands in reverse. -/
inductive Frame where
  | block (done : List (String × Value)) (key : String) (left : List (String × Value))
  | items (done : List Value) (left : List Value)

/-- The nodes a frame still has to visit. -/
def Frame.weight : Frame → Nat
  | .block _ _ left => weightEntries left
  | .items _ left => weightItems left

/-- The work left in a stack of frames, each frame counting for itself too. -/
def stackWork : List Frame → Nat
  | [] => 0
  | f :: rest => 3 * f.weight + 1 + stackWork rest

mutual

/-- Go down into a value. -/
def enter (f : Value → Value) (v : Value) (stack : List Frame) : Value :=
  match v with
  | .block [] => leave f (.block []) stack
  | .block ((k, v) :: rest) => enter f v (.block [] k rest :: stack)
  | .items [] => leave f (.items []) stack
  | .items (v :: rest) => enter f v (.items [] rest :: stack)
  | leaf => leave f (f leaf) stack
termination_by 3 * v.weight + stackWork stack
decreasing_by
  · simp only [weight, weightEntries]
    omega
  · simp only [weight, weightEntries, stackWork, Frame.weight]
    omega
  · simp only [weight, weightItems]
    omega
  · simp only [weight, weightItems, stackWork, Frame.weight]
    omega
  · have := weight_pos leaf
    omega

/-- Hand a rebuilt value to the container that waits for it. -/
def leave (f : Value → Value) (v : Value) (stack : List Frame) : Value :=
  match stack with
  | [] => v
  | .block done key [] :: stack => leave f (.block ((key, v) :: done).reverse) stack
  | .block done key ((k, w) :: left) :: stack => enter f w (.block ((key, v) :: done) k left :: stack)
  | .items done [] :: stack => leave f (.items (v :: done).reverse) stack
  | .items done (w :: left) :: stack => enter f w (.items (v :: done) left :: stack)
termination_by stackWork stack + 1
decreasing_by
  all_goals simp only [stackWork, Frame.weight, weightEntries, weightItems]; omega

end

/-- A value with a function applied to each leaf. -/
def mapLeaves (f : Value → Value) (v : Value) : Value :=
  enter f v []

mutual

/-- A value with a function applied to each leaf, by recursion. -/
def mapLeavesRec (f : Value → Value) : Value → Value
  | .block entries => .block (mapEntriesRec f entries)
  | .items values => .items (mapItemsRec f values)
  | .text s => f (.text s)
  | .flag b => f (.flag b)
  | .number n => f (.number n)
  | .variable name => f (.variable name)
  | .reference name => f (.reference name)
  | .absent => f .absent

def mapEntriesRec (f : Value → Value) : List (String × Value) → List (String × Value)
  | [] => []
  | (k, v) :: rest => (k, mapLeavesRec f v) :: mapEntriesRec f rest

def mapItemsRec (f : Value → Value) : List Value → List Value
  | [] => []
  | v :: rest => mapLeavesRec f v :: mapItemsRec f rest

end

mutual

/-- The references of a value, depth first in written order, by recursion. -/
def referencesRec : Value → List String
  | .reference name => [name]
  | .block entries => entryReferencesRec entries
  | .items values => itemReferencesRec values
  | _ => []

def entryReferencesRec : List (String × Value) → List String
  | [] => []
  | (_, v) :: rest => v.referencesRec ++ entryReferencesRec rest

def itemReferencesRec : List Value → List String
  | [] => []
  | v :: rest => v.referencesRec ++ itemReferencesRec rest

end

theorem itemReferencesRec_append (vs ws : List Value) :
    itemReferencesRec (vs ++ ws) = itemReferencesRec vs ++ itemReferencesRec ws := by
  induction vs with
  | nil => rfl
  | cons v vs ih => simp only [List.cons_append, itemReferencesRec, ih, List.append_assoc]

theorem itemReferencesRec_values (b : Block) :
    itemReferencesRec (Block.values b) = entryReferencesRec b := by
  induction b with
  | nil => rfl
  | cons e b ih =>
    rw [entryReferencesRec, ← ih]
    rfl

theorem gather_eq (found : Array String) (pending : Array Value) :
    (gather found pending).toList = found.toList ++ itemReferencesRec pending.toList.reverse := by
  fun_induction gather found pending with
  | case1 found pending last =>
    rw [Array.back?_eq_none_iff] at last
    simp [last, itemReferencesRec]
  | case2 found pending name last _ ih =>
    rw [ih, toList_of_back? last]
    simp [itemReferencesRec, referencesRec]
  | case3 found pending entries last _ ih =>
    rw [ih, toList_of_back? last]
    simp [itemReferencesRec, itemReferencesRec_append, referencesRec, itemReferencesRec_values]
  | case4 found pending values last _ ih =>
    rw [ih, toList_of_back? last]
    simp [itemReferencesRec, itemReferencesRec_append, referencesRec]
  | _ found pending =>
    rename_i last ih
    rw [ih, toList_of_back? last]
    simp [itemReferencesRec, referencesRec]

end Value

namespace Block

/-- The references in a block, depth first in written order. -/
def references (b : Block) : List String :=
  (Value.gather #[] b.values.reverse.toArray).toList

theorem references_eq (b : Block) : b.references = Value.entryReferencesRec b := by
  rw [references, Value.gather_eq, List.reverse_reverse, Value.itemReferencesRec_values]
  rfl

/-- A block with a function applied to each leaf of its values. -/
def mapLeaves (f : Value → Value) (b : Block) : Block :=
  match Value.mapLeaves f (.block b) with
  | .block entries => entries
  | _ => []

end Block

/-- A container being copied: the children left to visit, and the copies made so far, the latest
first. In a block also the key of the child visited last, until its copy is there. -/
inductive Copying where
  | block (left : Block) (key? : Option String) (made : Block)
  | items (left : List Value) (made : List Value)

namespace Copying

/-- Nothing of a block is copied yet. -/
def ofBlock (b : Block) : Copying :=
  .block b none []

/-- Nothing of a list is copied yet. -/
def ofItems (values : List Value) : Copying :=
  .items values []

/-- The next child to visit, and the container without it. -/
def next? : Copying → Option (Value × Copying)
  | .block ((k, v) :: left) _ made => some (v, .block left (some k) made)
  | .items (v :: left) made => some (v, .items left made)
  | .block [] _ _ | .items [] _ => none

/-- Put the copy of a child into its container. A block without a key for it drops it. -/
def attach (v : Value) : Copying → Copying
  | .block left (some k) made => .block left none ((k, v) :: made)
  | .block left none made => .block left none made
  | .items left made => .items left (v :: made)

/-- The copy of a container. -/
def finish : Copying → Value
  | .block _ _ made => .block made.reverse
  | .items _ made => .items made.reverse

/-- What a turn of the copy comes to: more work, the copy of the whole block, or neither. -/
inductive Turn where
  | goesOn (stack : List Copying)
  | made (b : Block)
  | astray

/-- One turn of the copy, the innermost container first: visit its next child, or hand its copy to
the container around it. -/
def turn : List Copying → Turn
  | [] => .astray
  | top :: around =>
    match top.next? with
    | some (.block b, top) => .goesOn (.ofBlock b :: top :: around)
    | some (.items values, top) => .goesOn (.ofItems values :: top :: around)
    | some (leaf, top) => .goesOn (top.attach leaf :: around)
    | none =>
      match around, top.finish with
      | parent :: around, v => .goesOn (parent.attach v :: around)
      | [], .block b => .made b
      | [], _ => .astray

/-- The work left in a container. -/
def work : Copying → Nat
  | .block left _ _ => 2 * Value.weightEntries left + 1
  | .items left _ => 2 * Value.weightItems left + 1

/-- The work left in a stack of containers. -/
def stackWork : List Copying → Nat
  | [] => 0
  | c :: rest => c.work + stackWork rest

@[simp]
theorem work_attach (v : Value) (c : Copying) : (c.attach v).work = c.work := by
  cases c with
  | block left key? made => cases key? <;> rfl
  | items left made => rfl

theorem work_pos (c : Copying) : 0 < c.work := by
  cases c <;> exact Nat.succ_pos _

/-- Visiting a child takes it off the work that is left. -/
theorem work_next {c c' : Copying} {v : Value} (next : c.next? = some (v, c')) :
    c'.work + 2 * v.weight = c.work := by
  cases c with
  | block left key? made =>
    cases left with
    | nil => simp [next?] at next
    | cons e left =>
      obtain ⟨rfl, rfl⟩ := Prod.mk.inj (Option.some.inj next)
      simp only [work, Value.weightEntries]
      omega
  | items left made =>
    cases left with
    | nil => simp [next?] at next
    | cons v left =>
      obtain ⟨rfl, rfl⟩ := Prod.mk.inj (Option.some.inj next)
      simp only [work, Value.weightItems]
      omega

/-- Every turn lowers the work that is left. -/
theorem work_turn {stack stack' : List Copying} (turned : turn stack = .goesOn stack') :
    stackWork stack' < stackWork stack := by
  cases stack with
  | nil => simp [turn] at turned
  | cons top around =>
    simp only [turn] at turned
    split at turned
    · rename_i b top' next
      obtain rfl := Turn.goesOn.inj turned
      have taken := work_next next
      simp only [stackWork, ofBlock, work, Value.weight] at taken ⊢
      omega
    · rename_i values top' next
      obtain rfl := Turn.goesOn.inj turned
      have taken := work_next next
      simp only [stackWork, ofItems, work, Value.weight] at taken ⊢
      omega
    · rename_i leaf top' _ _ next
      obtain rfl := Turn.goesOn.inj turned
      have taken := work_next next
      have := leaf.weight_pos
      simp only [stackWork, work_attach]
      omega
    · have := top.work_pos
      split at turned
      · obtain rfl := Turn.goesOn.inj turned
        simp only [stackWork, work_attach]
        omega
      all_goals cases turned

/-- Copy until the whole block is copied. -/
def run (stack : List Copying) : Option Block :=
  match _turned : turn stack with
  | .goesOn stack' => run stack'
  | .made b => some b
  | .astray => none
termination_by stackWork stack
decreasing_by exact work_turn _turned

end Copying

/-- A block built anew, equal to the given one at every depth. -/
def Block.copy (b : Block) : Block :=
  (Copying.run [.ofBlock b]).getD []

end Pipeworks.Config
