import Pipeworks.Config.Block

/-!
# Tagged values

A JSON form of configuration values that keeps what plain JSON loses: a value is
an object with one member, whose key tells what it is. Whole numbers and floats
are written as texts, and the entries of a block as pairs, so that range, digits
and order survive.
-/

namespace Pipeworks.Config

namespace Value

mutual

/-- The tagged form of a value. -/
def toTagged : Value → Json
  | .text s => .object [("s", .string s)]
  | .flag b => .object [("b", .bool b)]
  | .number (.integer n) => .object [("i", .string (toString n))]
  | .number (.decimal x) => .object [("f", .string (Decimal.plainText x))]
  | .variable name => .object [("env", .string name)]
  | .reference name => .object [("ref", .string name)]
  | .items vs => .object [("l", .array (taggedItems vs))]
  | .block entries => .object [("m", .array (taggedEntries entries))]
  | .absent => .string "absent"

def taggedItems : List Value → List Json
  | [] => []
  | v :: rest => v.toTagged :: taggedItems rest

def taggedEntries : List (String × Value) → List Json
  | [] => []
  | (key, v) :: rest => .array [.string key, v.toTagged] :: taggedEntries rest

end

mutual

/-- Read a tagged value; what is none counts as absent. -/
def ofTagged : Json → Value
  | .object [(tag, .string s)] =>
    match tag with
    | "s" => .text s
    | "i" => .number (.integer (s.toInt?.getD 0))
    | "f" => .number (.decimal (Decimal.ofText s))
    | "env" => .variable s
    | "ref" => .reference s
    | _ => .absent
  | .object [("b", .bool b)] => .flag b
  | .object [("l", .array js)] => .items (ofTaggedItems js)
  | .object [("m", .array js)] => .block (Block.ofList (ofTaggedEntries js))
  | _ => .absent

def ofTaggedItems : List Json → List Value
  | [] => []
  | j :: rest => ofTagged j :: ofTaggedItems rest

def ofTaggedEntries : List Json → List (String × Value)
  | [] => []
  | .array [.string key, j] :: rest => (key, ofTagged j) :: ofTaggedEntries rest
  | _ :: rest => ofTaggedEntries rest

end

end Value

/-- The tagged form of a block's entries. -/
def Block.toTagged (b : Block) : Json :=
  .array (Value.taggedEntries b)

/-- Read a block from the tagged form of its entries. -/
def Block.ofTagged (j : Json) : Block :=
  match j with
  | .array entries => Block.ofList (Value.ofTaggedEntries entries)
  | _ => []

end Pipeworks.Config
