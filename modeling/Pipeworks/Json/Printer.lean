import Pipeworks.Decimal.Layout
import Pipeworks.Json.Value

/-!
# Written JSON

`compact` writes a document without any space; `pretty` puts every item and
every member on a line of its own, two spaces deeper than its container. A
float that is not finite is written as null.
-/

namespace Pipeworks.Json

/-- The four hexadecimal digits of a code below 65536. -/
def hexDigits (n : Nat) : List Char :=
  [n / 4096 % 16, n / 256 % 16, n / 16 % 16, n % 16].map Nat.digitChar

/-- How a character is written inside a string. -/
def escape (c : Char) : List Char :=
  if c = '"' then ['\\', '"']
  else if c = '\\' then ['\\', '\\']
  else if c = '\n' then ['\\', 'n']
  else if c = '\r' then ['\\', 'r']
  else if c = '\t' then ['\\', 't']
  else if c.toNat = 8 then ['\\', 'b']
  else if c.toNat = 12 then ['\\', 'f']
  else if c.toNat < 32 then '\\' :: 'u' :: hexDigits c.toNat
  else [c]

/-- A written string. -/
def quote (s : String) : String :=
  "\"" ++ String.ofList (s.toList.flatMap escape) ++ "\""

/-- A document that is no container. -/
def scalarText : Json → String
  | .null => "null"
  | .bool b => toString b
  | .integer n => toString n
  | .float x => (Decimal.Layout.data.finite? x).getD "null"
  | .string s => quote s
  | .array _ => "[]"
  | .object _ => "\x7b\x7d"

mutual

/-- Write a document without any space after `out`. -/
def compactAfter (out : String) : Json → String
  | .array [] => out ++ "[]"
  | .array (j :: rest) => compactItems (j.compactAfter (out ++ "[")) rest ++ "]"
  | .object [] => out ++ "\x7b\x7d"
  | .object ((k, j) :: rest) =>
    compactMembers (j.compactAfter (out ++ "\x7b" ++ quote k ++ ":")) rest ++ "\x7d"
  | j => out ++ j.scalarText

def compactItems (out : String) : List Json → String
  | [] => out
  | j :: rest => compactItems (j.compactAfter (out ++ ",")) rest

def compactMembers (out : String) : List (String × Json) → String
  | [] => out
  | (k, j) :: rest => compactMembers (j.compactAfter (out ++ "," ++ quote k ++ ":")) rest

end

/-- A document without any space. -/
def compact (j : Json) : String :=
  j.compactAfter ""

/-- Add a new line with two spaces for each level. -/
def newLine (out : String) (level : Nat) : String :=
  (List.replicate level "  ").foldl (· ++ ·) (out ++ "\n")

mutual

/-- Write a document on lines of its own after `out`, inside as many containers as
`level` says. -/
def prettyAfter (out : String) (level : Nat) : Json → String
  | .array [] => out ++ "[]"
  | .array (j :: rest) =>
    let out := prettyAfter (newLine (out ++ "[") (level + 1)) (level + 1) j
    newLine (prettyItems out (level + 1) rest) level ++ "]"
  | .object [] => out ++ "\x7b\x7d"
  | .object ((k, j) :: rest) =>
    let out := newLine (out ++ "\x7b") (level + 1) ++ quote k ++ ": "
    let out := prettyAfter out (level + 1) j
    newLine (prettyMembers out (level + 1) rest) level ++ "\x7d"
  | j => out ++ j.scalarText

def prettyItems (out : String) (level : Nat) : List Json → String
  | [] => out
  | j :: rest => prettyItems (prettyAfter (newLine (out ++ ",") level) level j) level rest

def prettyMembers (out : String) (level : Nat) : List (String × Json) → String
  | [] => out
  | (k, j) :: rest =>
    let out := newLine (out ++ ",") level ++ quote k ++ ": "
    prettyMembers (prettyAfter out level j) level rest

end

/-- A document on lines of its own. -/
def pretty (j : Json) : String :=
  j.prettyAfter "" 0

mutual

/-- What is written after a text does not depend on it. -/
theorem compactAfter_append (a b : String) (j : Json) :
    j.compactAfter (a ++ b) = a ++ j.compactAfter b := by
  match j with
  | .array [] => simp [compactAfter, String.append_assoc]
  | .array (j :: rest) =>
    simp only [compactAfter, String.append_assoc]
    rw [compactAfter_append a _ j, compactItems_append a _ rest, String.append_assoc]
  | .object [] => simp [compactAfter, String.append_assoc]
  | .object ((k, j) :: rest) =>
    simp only [compactAfter, String.append_assoc]
    rw [compactAfter_append a _ j, compactMembers_append a _ rest, String.append_assoc]
  | .null | .bool _ | .integer _ | .float _ | .string _ =>
    simp [compactAfter, String.append_assoc]

theorem compactItems_append (a b : String) (js : List Json) :
    compactItems (a ++ b) js = a ++ compactItems b js := by
  match js with
  | [] => rfl
  | j :: rest =>
    simp only [compactItems, String.append_assoc]
    rw [compactAfter_append a _ j, compactItems_append a _ rest]

theorem compactMembers_append (a b : String) (ms : List (String × Json)) :
    compactMembers (a ++ b) ms = a ++ compactMembers b ms := by
  match ms with
  | [] => rfl
  | (k, j) :: rest =>
    simp only [compactMembers, String.append_assoc]
    rw [compactAfter_append a _ j, compactMembers_append a _ rest]

end

/-- Writing after a text adds the document's own text to it. -/
theorem compactAfter_eq (out : String) (j : Json) : j.compactAfter out = out ++ j.compact := by
  rw [compact, ← compactAfter_append, String.append_empty]

end Pipeworks.Json
