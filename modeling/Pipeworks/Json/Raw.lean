import Pipeworks.Json.Value

/-!
# Raw documents

A string is written with codes of sixteen bits, and a code of a surrogate that
has no partner stands for no character: such a string has no text. A raw
document may hold such strings and still be passed over. It has a `Json` value
exactly when all its strings, keys included, have texts.
-/

namespace Pipeworks.Json

/-- A document as it is written; a string without text is `none`. -/
inductive Raw where
  | null
  | bool (b : Bool)
  | integer (n : Int)
  | float (x : Float)
  | string (s : Option String)
  | array (items : List Raw)
  | object (members : List (Option String × Raw))
  deriving Inhabited, Repr

namespace Raw

mutual

/-- The value of a document, if all its strings have texts. -/
def value? : Raw → Option Json
  | .null => some .null
  | .bool b => some (.bool b)
  | .integer n => some (.integer n)
  | .float x => some (.float x)
  | .string s => s.map .string
  | .array items => (values? items).map .array
  | .object members => (entries? members).map .object

def values? : List Raw → Option (List Json)
  | [] => some []
  | r :: rest =>
    match r.value?, values? rest with
    | some j, some js => some (j :: js)
    | _, _ => none

def entries? : List (Option String × Raw) → Option (List (String × Json))
  | [] => some []
  | (key, r) :: rest =>
    match key, r.value?, entries? rest with
    | some k, some j, some ms => some ((k, j) :: ms)
    | _, _, _ => none

end

end Raw

mutual

/-- A value as a raw document. -/
def raw : Json → Raw
  | .null => .null
  | .bool b => .bool b
  | .integer n => .integer n
  | .float x => .float x
  | .string s => .string (some s)
  | .array items => .array (rawItems items)
  | .object members => .object (rawMembers members)

def rawItems : List Json → List Raw
  | [] => []
  | j :: rest => j.raw :: rawItems rest

def rawMembers : List (String × Json) → List (Option String × Raw)
  | [] => []
  | (k, j) :: rest => (some k, j.raw) :: rawMembers rest

end

mutual

/-- Every value is the value of a raw document. -/
theorem value?_raw (j : Json) : j.raw.value? = some j := by
  cases j with
  | array items => simp [raw, Raw.value?, values?_rawItems items]
  | object members => simp [raw, Raw.value?, entries?_rawMembers members]
  | _ => rfl

theorem values?_rawItems (js : List Json) : Raw.values? (rawItems js) = some js := by
  cases js with
  | nil => rfl
  | cons j rest => simp [rawItems, Raw.values?, value?_raw j, values?_rawItems rest]

theorem entries?_rawMembers (ms : List (String × Json)) :
    Raw.entries? (rawMembers ms) = some ms := by
  match ms with
  | [] => rfl
  | (k, j) :: rest => simp [rawMembers, Raw.entries?, value?_raw j, entries?_rawMembers rest]

end

end Pipeworks.Json
