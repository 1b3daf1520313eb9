import Pipeworks.Text.Extending
import Pipeworks.Text.Unprintable

/-!
# Texts shown between quotes

What would not be seen inside the quotes, or would be drawn on the character
before it, is shown by its code; quotes, backslashes and the common control
characters have a letter after a backslash.
-/

namespace Pipeworks.Text

/-- Whether a code point lies in one of some ranges. -/
def inRanges (ranges : List (Nat × Nat)) (n : Nat) : Bool :=
  ranges.any fun r => decide (r.1 ≤ n ∧ n ≤ r.2)

/-- Whether a character can be seen by itself. -/
def isVisible (c : Char) : Bool :=
  !inRanges extending c.toNat && !inRanges unprintable c.toNat

/-- A character by its code. -/
def codeOf (c : Char) : List Char :=
  ['\\', 'u', '\x7b'] ++ Nat.toDigits 16 c.toNat ++ ['\x7d']

/-- How a character is shown inside quotes. -/
def shownChar (c : Char) : List Char :=
  match c with
  | '"' => ['\\', '"']
  | '\\' => ['\\', '\\']
  | '\n' => ['\\', 'n']
  | '\r' => ['\\', 'r']
  | '\t' => ['\\', 't']
  | '\x00' => ['\\', '0']
  | c => if isVisible c then [c] else codeOf c

/-- A text shown between quotes. -/
def shown (s : String) : String :=
  "\"" ++ String.ofList (s.toList.flatMap shownChar) ++ "\""

end Pipeworks.Text
