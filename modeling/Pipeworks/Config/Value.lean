import Pipeworks.Decimal.Layout
import Pipeworks.Json.Value

/-!
# Configuration values

The value of a key is a tree: leaves are literals and references, inner nodes
are blocks and lists. A reference names either a variable of the environment or
another declaration. An absent value stands where a variable was not set.
-/

namespace Pipeworks.Config

/-- A number as it was written: without or with a fractional part. -/
inductive Number where
  | integer (n : Int)
  | decimal (x : Float)
  deriving Repr

/-- A configuration value. The entries of a block stand in written order. -/
inductive Value where
  | text (s : String)
  | flag (b : Bool)
  | number (n : Number)
  | variable (name : String)
  | reference (name : String)
  | block (entries : List (String × Value))
  | items (values : List Value)
  | absent
  deriving Inhabited, Repr

/-- The entries of a block. -/
abbrev Block := List (String × Value)

/-- Whether a number lies in the range of 64-bit signed integers, which is that
from `-2 ^ 63` below `2 ^ 63`. -/
def inWordRange (n : Int) : Bool :=
  decide (-9223372036854775808 ≤ n ∧ n < 9223372036854775808)

namespace Number

/-- The number as a float. -/
def toFloat : Number → Float
  | .integer n => Float.ofInt n
  | .decimal x => x

/-- The number if it was written without a fractional part. -/
def integer? : Number → Option Int
  | .integer n => some n
  | .decimal _ => none

/-- The number in the layout of the configuration language. -/
def text : Number → String
  | .integer n => toString n
  | .decimal x => Decimal.plainText x

/-- Equality of numbers written alike; floats compare as numbers. -/
def same : Number → Number → Bool
  | .integer a, .integer b => a == b
  | .decimal a, .decimal b => a == b
  | _, _ => false

end Number

namespace Value

def text? : Value → Option String
  | .text s => some s
  | _ => none

def flag? : Value → Option Bool
  | .flag b => some b
  | _ => none

def integer? : Value → Option Int
  | .number n => n.integer?
  | _ => none

def float? : Value → Option Float
  | .number n => some n.toFloat
  | _ => none

def block? : Value → Option Block
  | .block entries => some entries
  | _ => none

def items? : Value → Option (List Value)
  | .items values => some values
  | _ => none

def reference? : Value → Option String
  | .reference name => some name
  | _ => none

def isAbsent : Value → Bool
  | .absent => true
  | _ => false

/-- What messages call the kind of a value. -/
def typeName : Value → String
  | .text _ => "string"
  | .flag _ => "boolean"
  | .number _ => "number"
  | .variable _ => "environment reference"
  | .reference _ => "component reference"
  | .block _ => "mapping"
  | .items _ => "list"
  | .absent => "absent value"

mutual

/-- Equality of values; floats compare as numbers, entries in order. -/
def same : Value → Value → Bool
  | .text a, .text b => a == b
  | .flag a, .flag b => a == b
  | .number a, .number b => a.same b
  | .variable a, .variable b => a == b
  | .reference a, .reference b => a == b
  | .block as, .block bs => sameEntries as bs
  | .items as, .items bs => sameItems as bs
  | .absent, .absent => true
  | _, _ => false

def sameEntries : List (String × Value) → List (String × Value) → Bool
  | [], [] => true
  | (k, a) :: as, (l, b) :: bs => k == l && a.same b && sameEntries as bs
  | _, _ => false

def sameItems : List Value → List Value → Bool
  | [], [] => true
  | a :: as, b :: bs => a.same b && sameItems as bs
  | _, _ => false

end

instance : BEq Value := ⟨same⟩

mutual

/-- The number of nodes of a value. -/
def weight : Value → Nat
  | .block entries => 1 + weightEntries entries
  | .items values => 1 + weightItems values
  | _ => 1

def weightEntries : List (String × Value) → Nat
  | [] => 0
  | (_, v) :: rest => v.weight + weightEntries rest

def weightItems : List Value → Nat
  | [] => 0
  | v :: rest => v.weight + weightItems rest

end

theorem weight_pos (v : Value) : 0 < v.weight := by
  cases v <;> simp only [weight] <;> omega

theorem weightItems_append (as bs : List Value) :
    weightItems (as ++ bs) = weightItems as + weightItems bs := by
  induction as with
  | nil => simp [weightItems]
  | cons v rest ih => simp [weightItems, ih, Nat.add_assoc]

theorem weightItems_map_snd (entries : List (String × Value)) :
    weightItems (entries.map (·.2)) = weightEntries entries := by
  induction entries with
  | nil => rfl
  | cons e rest ih => simp [weightItems, weightEntries, ih]

mutual

/-- The value as JSON: a variable is written with its dollar sign, a reference
by its name, an absent value as null, and so is a float that is not finite. -/
def toJson : Value → Json
  | .text s => .string s
  | .flag b => .bool b
  | .number (.integer n) => .integer n
  | .number (.decimal x) => if x.isFinite then .float x else .null
  | .variable name => .string ("$" ++ name)
  | .reference name => .string name
  | .block entries => .object (entriesToJson entries)
  | .items values => .array (itemsToJson values)
  | .absent => .null

def entriesToJson : List (String × Value) → List (String × Json)
  | [] => []
  | (k, v) :: rest => (k, v.toJson) :: entriesToJson rest

def itemsToJson : List Value → List Json
  | [] => []
  | v :: rest => v.toJson :: itemsToJson rest

end

end Value

end Pipeworks.Config
