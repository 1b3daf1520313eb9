/-!
# JSON values

Numbers keep the distinction between whole numbers and floats. An object is a
list of members in the order they are written; `Json.sorted` builds the objects
whose members stand in the order of their keys, which is how payloads are kept.
-/

namespace Pipeworks

/-- A JSON document. -/
inductive Json where
  | null
  | bool (b : Bool)
  | integer (n : Int)
  | float (x : Float)
  | string (s : String)
  | array (items : List Json)
  | object (members : List (String × Json))
  deriving Inhabited, Repr

namespace Json

/-- Put a member into a list sorted by key, replacing the one with its key. -/
def insertSorted (key : String) (value : Json) : List (String × Json) → List (String × Json)
  | [] => [(key, value)]
  | (k, v) :: rest =>
    if key = k then (key, value) :: rest
    else if key < k then (key, value) :: (k, v) :: rest
    else (k, v) :: insertSorted key value rest

/-- The object of the given members, sorted by key; the last of two members with
one key counts. -/
def sorted (members : List (String × Json)) : Json :=
  .object (members.foldl (fun acc m => insertSorted m.1 m.2 acc) [])

/-- The member of an object with the given key. -/
def get? (j : Json) (key : String) : Option Json :=
  match j with
  | .object members => members.lookup key
  | _ => none

/-- The text of a string. -/
def text? : Json → Option String
  | .string s => some s
  | _ => none

mutual

/-- Equality of documents: floats compare as numbers, members in order. -/
def same : Json → Json → Bool
  | .null, .null => true
  | .bool a, .bool b => a == b
  | .integer a, .integer b => a == b
  | .float a, .float b => a == b
  | .string a, .string b => a == b
  | .array as, .array bs => sameItems as bs
  | .object as, .object bs => sameMembers as bs
  | _, _ => false

def sameItems : List Json → List Json → Bool
  | [], [] => true
  | a :: as, b :: bs => a.same b && sameItems as bs
  | _, _ => false

def sameMembers : List (String × Json) → List (String × Json) → Bool
  | [], [] => true
  | (k, a) :: as, (l, b) :: bs => k == l && a.same b && sameMembers as bs
  | _, _ => false

end

instance : BEq Json := ⟨same⟩

mutual

/-- The document with the members of every object sorted by key; of members with
one key the last counts. -/
def canonical : Json → Json
  | .array items => .array (canonicalItems items)
  | .object members => sorted (canonicalMembers members)
  | j => j

def canonicalItems : List Json → List Json
  | [] => []
  | j :: rest => j.canonical :: canonicalItems rest

def canonicalMembers : List (String × Json) → List (String × Json)
  | [] => []
  | (k, j) :: rest => (k, j.canonical) :: canonicalMembers rest

end

end Json

end Pipeworks
