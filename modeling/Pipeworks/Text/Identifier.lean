import Pipeworks.Json.Value
import Pipeworks.Text.Letters

/-!
# Identifiers

Sessions, events and streams are named by identifiers of 36 characters:
hexadecimal digits in groups of 8, 4, 4, 4 and 12. What two runs have written can
be compared when the identifiers in it are hidden.
-/

namespace Pipeworks.Text

/-- Twelve decimal digits. -/
def twelveDigits (n : Nat) : String :=
  let digits := toString n
  repeated (12 - digits.length) "0" ++ digits

/-- The identifier made from a number, within a group of eight digits. -/
def identifier (group : String) (n : Nat) : String :=
  group ++ "-0000-4000-8000-" ++ twelveDigits n

def isHexDigit (c : Char) : Bool :=
  c.isDigit || (decide ('a' ≤ c) && decide (c ≤ 'f')) || (decide ('A' ≤ c) && decide (c ≤ 'F'))

/-- The length of an identifier. -/
def identifierSize : Nat := 36

/-- The places of the hyphens in an identifier. -/
def hyphens : List Nat := [8, 13, 18, 23]

/-- Whether some characters begin with an identifier. -/
def beginsWithIdentifier (cs : List Char) : Bool :=
  let first := cs.take identifierSize
  first.length == identifierSize && first.zipIdx.all fun (c, i) =>
    if hyphens.contains i then c == '-' else isHexDigit c

/-- What stands for a hidden identifier. -/
def hidden : String := "<id>"

/-- Hide the identifiers among some characters, the first `skip` of which belong
to one that is hidden already. -/
def hideChars (skip : Nat) : List Char → List Char
  | [] => []
  | c :: rest =>
    if 0 < skip then hideChars (skip - 1) rest
    else if beginsWithIdentifier (c :: rest) then
      hidden.toList ++ hideChars (identifierSize - 1) rest
    else c :: hideChars 0 rest

/-- Hide the identifiers in a text. -/
def hideIdentifiers (s : String) : String :=
  String.ofList (hideChars 0 s.toList)

end Pipeworks.Text

namespace Pipeworks.Json

mutual

/-- Hide the identifiers in the texts of a document. -/
def hideIdentifiers : Json → Json
  | .string s => .string (Text.hideIdentifiers s)
  | .array items => .array (hideInItems items)
  | .object members => .object (hideInMembers members)
  | j => j

def hideInItems : List Json → List Json
  | [] => []
  | j :: rest => j.hideIdentifiers :: hideInItems rest

def hideInMembers : List (String × Json) → List (String × Json)
  | [] => []
  | (k, j) :: rest => (k, j.hideIdentifiers) :: hideInMembers rest

end

end Pipeworks.Json
