import Pipeworks.Decimal.Layout
import Pipeworks.Json.Raw

/-!
# Reading JSON

A text is cut into marks and scalars, and these are put together with the open
containers on a stack, so that documents may be nested to any depth. Members
keep their written order, repeated keys included. What is read first is a raw
document, which may hold strings without text.

A number without fraction and exponent is whole when it fits 64 bits, signed or
unsigned; every other number is a float, and so is minus zero. A float is made
from its first digits, as many as fit 64 bits, scaled by one power of ten at a
time. It is infinite when the number is out of range.
-/

namespace Pipeworks.Json

/-- A punctuation character, or a document that is no container. -/
inductive Lexeme where
  | mark (c : Char)
  | scalar (r : Raw)

/-- The greatest significand, `2 ^ 64 - 1`. -/
def maxSignificand : Nat := 18446744073709551615

/-- The greatest size of a negative whole number, `2 ^ 63`. -/
def maxNegative : Nat := 9223372036854775808

/-- Scale a float by a power of ten, by steps of at most 308 decimal places. -/
def scaled (x : Float) (power : Int) (steps : Nat) : Float :=
  match steps with
  | 0 => x
  | steps + 1 =>
    if x == 0.0 then x
    else if 308 < power then 1.0 / 0.0
    else if 0 ≤ power then x * Float.ofScientific 1 false power.toNat
    else if -308 ≤ power then x / Float.ofScientific 1 false (-power).toNat
    else scaled (x / Float.ofScientific 1 false 308) (power + 308) steps

/-- The float `significand · 10 ^ power`. Below `10 ^ -400` every significand
gives zero after a few steps. -/
def floatOf (negative : Bool) (significand : Nat) (power : Int) : Float :=
  let x := scaled significand.toFloat power 4
  if negative then -x else x

/-- Take digits into a significand as long as it fits; the count is that of the
digits taken, and the digits left over follow. -/
def takeDigits (significand taken : Nat) : List Char → Nat × Nat × List Char
  | [] => (significand, taken, [])
  | c :: rest =>
    let next := significand * 10 + (c.toNat - '0'.toNat)
    if maxSignificand < next then (significand, taken, c :: rest)
    else takeDigits next (taken + 1) rest

/-- The exponent after its letter, with the number of characters taken. -/
def exponent? (cs : List Char) : Option (Int × Nat) :=
  let (negative, signs) := match cs with
    | '-' :: _ => (true, 1)
    | '+' :: _ => (false, 1)
    | _ => (false, 0)
  let digits := (cs.drop signs).takeWhile Char.isDigit
  if digits.isEmpty then none
  else
    let size : Int := Decimal.wordOfDigits digits
    some (if negative then -size else size, signs + digits.length)

/-- The number whose first digits are those of `cs`, with the number of
characters taken. -/
def number? (negative : Bool) (cs : List Char) : Option (Raw × Nat) :=
  let whole := cs.takeWhile Char.isDigit
  let whole := if whole.head? = some '0' then ['0'] else whole
  let after := cs.drop whole.length
  let (significand, taken, left) := takeDigits 0 0 whole
  let power : Int := left.length
  if whole.isEmpty then none
  else
    match after with
    | '.' :: rest =>
      let digits := rest.takeWhile Char.isDigit
      let (significand, kept, _) := takeDigits significand 0 digits
      let power := power - kept
      let size := whole.length + 1 + digits.length
      if digits.isEmpty then none
      else scientific negative significand power size (rest.drop digits.length)
    | 'e' :: _ | 'E' :: _ => scientific negative significand power whole.length after
    | _ =>
      if left.isEmpty then
        if negative then
          if significand ≠ 0 ∧ significand ≤ maxNegative then some (.integer (-significand), taken)
          else some (.float (floatOf true significand 0), taken)
        else some (.integer significand, taken)
      else some (.float (floatOf negative significand power), whole.length)
where
  /-- A float with or without an exponent in `rest`; `size` characters stand before. -/
  scientific (negative : Bool) (significand : Nat) (power : Int) (size : Nat)
      (rest : List Char) : Option (Raw × Nat) :=
    let letter := match rest with
      | 'e' :: _ | 'E' :: _ => true
      | _ => false
    if letter then
      (exponent? rest.tail).map fun (e, n) =>
        (.float (floatOf negative significand (power + e)), size + 1 + n)
    else some (.float (floatOf negative significand power), size)

/-- The value of a hexadecimal digit. -/
def hexValue? (c : Char) : Option Nat :=
  if c.isDigit then some (c.toNat - '0'.toNat)
  else if 'a' ≤ c ∧ c ≤ 'f' then some (c.toNat - 'a'.toNat + 10)
  else if 'A' ≤ c ∧ c ≤ 'F' then some (c.toNat - 'A'.toNat + 10)
  else none

/-- The code written with four hexadecimal digits. -/
def code? (a b c d : Char) : Option Nat := do
  some ((← hexValue? a) * 4096 + (← hexValue? b) * 256 + (← hexValue? c) * 16 + (← hexValue? d))

/-- The character of a backslash with the character after it, the codes of
Unicode apart. -/
def unescape? (c : Char) : Option Char :=
  match c with
  | '"' => some '"'
  | '\\' => some '\\'
  | '/' => some '/'
  | 'b' => some (Char.ofNat 8)
  | 'f' => some (Char.ofNat 12)
  | 'n' => some '\n'
  | 'r' => some '\r'
  | 't' => some '\t'
  | _ => none

/-- The character of a pair of surrogates. -/
def paired (high low : Nat) : Char :=
  Char.ofNat (0x10000 + (high - 0xD800) * 1024 + (low - 0xDC00))

/-- The characters of a string up to its closing quote, unless it has no text, with
the number of characters taken, the quote included. -/
def string? (read : Option (List Char)) (taken : Nat) :
    List Char → Option (Option (List Char) × Nat)
  | [] => none
  | '"' :: _ => some (read.map List.reverse, taken + 1)
  | '\\' :: 'u' :: a :: b :: c :: d :: '\\' :: 'u' :: e :: f :: g :: h :: rest =>
    (code? a b c d).bind fun code =>
      let next := '\\' :: 'u' :: e :: f :: g :: h :: rest
      if 0xD800 ≤ code ∧ code ≤ 0xDBFF then
        (code? e f g h).bind fun low =>
          if 0xDC00 ≤ low ∧ low ≤ 0xDFFF then
            string? (read.map (paired code low :: ·)) (taken + 12) rest
          else string? none (taken + 6) next
      else if 0xDC00 ≤ code ∧ code ≤ 0xDFFF then string? none (taken + 6) next
      else string? (read.map (Char.ofNat code :: ·)) (taken + 6) next
  | '\\' :: 'u' :: a :: b :: c :: d :: rest =>
    (code? a b c d).bind fun code =>
      if 0xD800 ≤ code ∧ code ≤ 0xDFFF then string? none (taken + 6) rest
      else string? (read.map (Char.ofNat code :: ·)) (taken + 6) rest
  | '\\' :: c :: rest =>
    (unescape? c).bind fun c => string? (read.map (c :: ·)) (taken + 2) rest
  | c :: rest =>
    if c.toNat < 32 ∨ c = '\\' then none else string? (read.map (c :: ·)) (taken + 1) rest

/-- The literal with the given letters after its first one. -/
def literal? (letters : List Char) (r : Raw) (rest : List Char) : Option (Lexeme × Nat) :=
  if letters.isPrefixOf rest then some (.scalar r, letters.length) else none

/-- The lexeme that begins with `c`, with the number of characters it takes from
`rest`. -/
def Lexeme.munch? (c : Char) (rest : List Char) : Option (Lexeme × Nat) :=
  if ['\x7b', '\x7d', '[', ']', ':', ','].contains c then some (.mark c, 0)
  else if c = '"' then
    (string? (some []) 0 rest).map fun (letters, n) =>
      (.scalar (.string (letters.map String.ofList)), n)
  else if c = '-' then (number? true rest).map fun (r, n) => (.scalar r, n)
  else if c.isDigit then (number? false (c :: rest)).map fun (r, n) => (.scalar r, n - 1)
  else if c = 't' then literal? ['r', 'u', 'e'] (.bool true) rest
  else if c = 'f' then literal? ['a', 'l', 's', 'e'] (.bool false) rest
  else if c = 'n' then literal? ['u', 'l', 'l'] .null rest
  else none

/-- The lexemes of a text, after those in `read`, which stand in reverse. -/
def lexemes? (read : List Lexeme) (cs : List Char) : Option (List Lexeme) :=
  match cs with
  | [] => some read.reverse
  | c :: rest =>
    if c == ' ' || c == '\n' || c == '\t' || c == '\r' then lexemes? read rest
    else
      match Lexeme.munch? c rest with
      | none => none
      | some (l, n) => lexemes? (l :: read) (rest.drop n)
termination_by cs.length
decreasing_by
  all_goals simp only [List.length_cons, List.length_drop]; omega

/-- A container being read; what is read stands in reverse. -/
inductive Open where
  | array (items : List Raw)
  | object (members : List (Option String × Raw)) (key : Option String)

mutual

/-- Read a document inside the given containers. -/
def document? (around : List Open) : List Lexeme → Option Raw
  | .scalar r :: rest => resume? r around rest
  | .mark '[' :: .mark ']' :: rest => resume? (.array []) around rest
  | .mark '[' :: rest => document? (.array [] :: around) rest
  | .mark '\x7b' :: .mark '\x7d' :: rest => resume? (.object []) around rest
  | .mark '\x7b' :: .scalar (.string key) :: .mark ':' :: rest =>
    document? (.object [] key :: around) rest
  | _ => none

/-- Go on after a document inside the given containers. -/
def resume? (r : Raw) (around : List Open) : List Lexeme → Option Raw
  | [] => if around.isEmpty then some r else none
  | .mark ']' :: rest =>
    match around with
    | .array items :: around => resume? (.array (r :: items).reverse) around rest
    | _ => none
  | .mark '\x7d' :: rest =>
    match around with
    | .object members key :: around => resume? (.object ((key, r) :: members).reverse) around rest
    | _ => none
  | .mark ',' :: rest =>
    match around with
    | .array items :: around => document? (.array (r :: items) :: around) rest
    | .object members key :: around =>
      match rest with
      | .scalar (.string next) :: .mark ':' :: rest =>
        document? (.object ((key, r) :: members) next :: around) rest
      | _ => none
    | [] => none
  | _ => none

end

/-- Read a whole text as one raw document. -/
def readRaw? (s : String) : Option Raw :=
  (lexemes? [] s.toList).bind (document? [])

/-- Read a whole text as one document, all of whose strings have texts. -/
def read? (s : String) : Option Json :=
  (readRaw? s).bind Raw.value?

end Pipeworks.Json
