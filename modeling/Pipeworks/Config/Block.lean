import Pipeworks.Config.Value

/-!
# Blocks as ordered maps

The entries of a block stand in the order in which their keys were first put
into it. Putting a value under a key that is there replaces the old value in
its place.
-/

namespace Pipeworks.Config.Block

/-- The keys, in order. -/
def keys (b : Block) : List String :=
  b.map (·.1)

/-- The values, in order. -/
def values (b : Block) : List Value :=
  b.map (·.2)

theorem weightItems_values (b : Block) : Value.weightItems b.values = Value.weightEntries b :=
  Value.weightItems_map_snd b

/-- The value under a key. -/
def get? (b : Block) (key : String) : Option Value :=
  b.lookup key

def contains (b : Block) (key : String) : Bool :=
  (b.get? key).isSome

/-- Replace the value under a key that is there. -/
def replace (b : Block) (key : String) (value : Value) : Block :=
  match b with
  | [] => []
  | (k, v) :: rest =>
    if key == k then (k, value) :: rest else (k, v) :: replace rest key value

/-- Put a value under a key: in place if the key is there, else at the end. The value that stood
under the key is returned with the block. -/
def insert (b : Block) (key : String) (value : Value) : Option Value × Block :=
  match b.get? key with
  | some old => (some old, b.replace key value)
  | none => (none, b ++ [(key, value)])

/-- A block with a value put under a key. -/
def put (b : Block) (key : String) (value : Value) : Block :=
  (b.insert key value).2

/-- The block made by putting entries one after another into an empty one. -/
def ofList (entries : List (String × Value)) : Block :=
  entries.foldl (fun b e => put b e.1 e.2) []

/-- No key stands twice. -/
def Keyed (b : Block) : Prop :=
  b.keys.Nodup

/-- The block as JSON. -/
def toJson (b : Block) : Json :=
  .object (Value.entriesToJson b)

end Pipeworks.Config.Block
