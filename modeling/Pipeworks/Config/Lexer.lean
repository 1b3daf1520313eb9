import Pipeworks.Config.Token
import Pipeworks.Text.Letters

/-!
# From characters to tokens

Between tokens stand spaces, tabs, line ends and comments. A comment begins
with `//` or `#` and runs to the end of its line. Where a token begins,
`Token.munch?` takes the longest one; the line of a token is one more than the
number of line feeds before it.
-/

namespace Pipeworks.Config

/-- A character that separates tokens. -/
def isSpace (c : Char) : Bool :=
  c == ' ' || c == '\t' || c == '\r' || c == '\n'

/-- A character that ends a comment. -/
def isLineEnd (c : Char) : Bool :=
  c == '\r' || c == '\n'

/-- A character that may begin a name. -/
def isNameStart (c : Char) : Bool :=
  c.isAlpha || c == '_'

/-- A character that may continue a name. -/
def isNamePart (c : Char) : Bool :=
  c.isAlphanum || c == '_' || c == '-'

/-- A character of the name of a variable. -/
def isVariablePart (c : Char) : Bool :=
  c.isAlphanum || c == '_'

/-- Whether a comment may end where these characters begin: at a line feed, at a
carriage return with its line feed, or at the end of the text. -/
def endsComment : List Char → Bool
  | [] => true
  | '\n' :: _ => true
  | '\r' :: '\n' :: _ => true
  | _ => false

/-- The characters after a comment that begins with these, the line end
included, if there is such a comment. -/
def afterComment? (cs : List Char) : Option (List Char) :=
  let body? := match cs with
    | '#' :: rest => some rest
    | '/' :: '/' :: rest => some rest
    | _ => none
  body?.bind fun body =>
    let rest := body.dropWhile (fun c => !isLineEnd c)
    if endsComment rest then some rest else none

theorem length_afterComment {cs rest : List Char} (h : afterComment? cs = some rest) :
    rest.length < cs.length := by
  unfold afterComment? at h
  split at h
  all_goals simp only [Option.bind_some, Option.bind_none, reduceCtorEq] at h
  all_goals
    split at h <;> simp only [Option.some.injEq, reduceCtorEq] at h
    subst h
    rename_i body _
    have := (List.dropWhile_suffix (l := body) (fun c => !isLineEnd c)).length_le
    simp only [List.length_cons]
    omega

/-- Skip spaces and comments. The line given is that of the first character, the
line returned that of the first character left. -/
def skipTrivia (line : Nat) (cs : List Char) : Nat × List Char :=
  match cs with
  | [] => (line, [])
  | c :: rest =>
    if isSpace c then skipTrivia (if c == '\n' then line + 1 else line) rest
    else
      match _h : afterComment? (c :: rest) with
      | some after => skipTrivia line after
      | none => (line, c :: rest)
termination_by cs.length
decreasing_by
  · simp
  · exact length_afterComment _h

theorem length_skipTrivia (line : Nat) (cs : List Char) :
    (skipTrivia line cs).2.length ≤ cs.length := by
  fun_induction skipTrivia line cs with
  | case1 => simp
  | case2 line c rest _ ih =>
      simp only [List.length_cons, dite_eq_ite] at ih ⊢
      omega
  | case3 _ _ _ _ _ h ih =>
      have := length_afterComment h
      omega
  | case4 => simp

/-- The meaning of a backslash and the character after it: what is added to the
characters read so far, which stand in reverse. -/
def escaped (c : Char) (read : List Char) : List Char :=
  match c with
  | 'n' => '\n' :: read
  | 't' => '\t' :: read
  | '\\' => '\\' :: read
  | '"' => '"' :: read
  | '\'' => '\'' :: read
  | _ => c :: '\\' :: read

/-- The characters up to the closing quote, with the number of characters taken,
the quote included. -/
def quoted? (quote : Char) : List Char → List Char → Nat → Option (List Char × Nat)
  | [], _, _ => none
  | c :: rest, read, taken =>
    if c = quote then some (read.reverse, taken + 1)
    else if c = '\\' then
      match rest with
      | [] => none
      | e :: rest => quoted? quote rest (escaped e read) (taken + 2)
    else quoted? quote rest (c :: read) (taken + 1)

/-- The token made of a run of name characters. -/
def word (letters : List Char) : Token :=
  let s := String.ofList letters
  if Text.sameLetters s "true" then .flag true
  else if Text.sameLetters s "false" then .flag false
  else .name s

/-- A point and the digits after it, if these characters begin with both. -/
def fraction? (cs : List Char) : Option (List Char) :=
  match cs with
  | '.' :: rest =>
    let digits := rest.takeWhile Char.isDigit
    if digits.isEmpty then none else some digits
  | _ => none

/-- A number with the given whole digits, going on in `rest`. Without a fraction
it must fit 64 bits. The count is that of the characters taken from `rest`. -/
def number? (negative : Bool) (whole rest : List Char) : Option (Token × Nat) :=
  match fraction? rest with
  | some fraction =>
    some (.number (.decimal (Decimal.nearest negative whole fraction)), fraction.length + 1)
  | none =>
    let size : Int := Decimal.wordOfDigits whole
    let n := if negative then -size else size
    if inWordRange n then some (.number (.integer n), 0) else none

/-- A reference to a variable after its dollar sign, with or without braces. -/
def fromEnvironment? (rest : List Char) : Option (Token × Nat) :=
  match rest with
  | '\x7b' :: rest =>
    let name := rest.takeWhile isVariablePart
    match name.isEmpty, rest.dropWhile isVariablePart with
    | false, '\x7d' :: _ => some (.variable (String.ofList name), name.length + 2)
    | _, _ => none
  | _ =>
    let name := rest.takeWhile isVariablePart
    if name.isEmpty then none else some (.variable (String.ofList name), name.length)

/-- The token that begins with `c` and goes on in `rest`, with the number of
characters it takes from `rest`. -/
def Token.munch? (c : Char) (rest : List Char) : Option (Token × Nat) :=
  if c = '"' ∨ c = '\'' then
    (quoted? c rest [] 0).map fun (letters, n) => (.text (String.ofList letters), n)
  else if c = '$' then fromEnvironment? rest
  else if c = '-' then
    let digits := rest.takeWhile Char.isDigit
    if digits.isEmpty then none
    else (number? true digits (rest.drop digits.length)).map fun (t, n) => (t, digits.length + n)
  else if c.isDigit then
    let digits := rest.takeWhile Char.isDigit
    (number? false (c :: digits) (rest.drop digits.length)).map fun (t, n) => (t, digits.length + n)
  else if isNameStart c then
    let letters := rest.takeWhile isNamePart
    some (word (c :: letters), letters.length)
  else (Symbol.ofChar? c).map fun s => (.symbol s, 0)

/-- How many characters a message quotes where no token begins. -/
def excerptLength : Nat := 20

/-- The tokens of a text whose first character stands on `line`, after those in
`read`, which stand in reverse. -/
def Token.scan (read : List Located) (line : Nat) (cs : List Char) :
    Except Fault (List Located) :=
  match _h : skipTrivia line cs with
  | (_, []) => .ok read.reverse
  | (start, c :: rest) =>
    match Token.munch? c rest with
    | none =>
      .error (.parse start (.unexpectedInput (String.ofList ((c :: rest).take excerptLength))))
    | some (t, n) =>
      Token.scan (⟨t, start⟩ :: read) (start + (c :: rest.take n).count '\n') (rest.drop n)
termination_by cs.length
decreasing_by
  have := length_skipTrivia line cs
  simp only [_h, List.length_cons] at this
  simp only [List.length_drop]
  omega

/-- The tokens of a text. -/
def tokenize (s : String) : Except Fault (List Located) :=
  Token.scan [] 1 s.toList

end Pipeworks.Config
