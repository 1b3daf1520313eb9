import Pipeworks.Config.Lexer

/-!
# The lexemes of the configuration language

What a text is made of, not how it is read. Between lexemes stand blanks and comments. At each point
the longest lexeme counts, so `Splits` says in which way a text is taken apart, and `Stops` where
that is not possible. A whole number that does not fit 64 bits is a lexeme too; it stands for no
token, and no shorter number is taken in its place.
-/

namespace Pipeworks.Config

/-! ## Lexemes -/

/-- The characters that mean something after a backslash, with what they mean. -/
def escapes : List (Char × Char) :=
  [('n', '\n'), ('t', '\t'), ('\\', '\\'), ('"', '"'), ('\'', '\'')]

/-- Between two quotes the first characters stand for the second ones. A backslash takes the
character after it along, also a quote; both are kept where they mean nothing together. -/
inductive Quoted (quote : Char) : List Char → List Char → Prop where
  | nil : Quoted quote [] []
  | plain {c body s} (noQuote : c ≠ quote) (noBackslash : c ≠ '\\') (more : Quoted quote body s) :
      Quoted quote (c :: body) (c :: s)
  | known {e c body s} (escape : (e, c) ∈ escapes) (more : Quoted quote body s) :
      Quoted quote ('\\' :: e :: body) (c :: s)
  | other {e body s} (unknown : ∀ c, (e, c) ∉ escapes) (more : Quoted quote body s) :
      Quoted quote ('\\' :: e :: body) ('\\' :: e :: s)

/-- One or more characters of a class. -/
structure Run (p : Char → Bool) (cs : List Char) : Prop where
  nonempty : cs ≠ []
  all : ∀ c ∈ cs, p c = true

/-- A word stands for itself, unless it is a boolean literal in some case of letters. -/
inductive WordMeans (s : String) : Token → Prop where
  | yes (spelled : Text.sameLetters s "true" = true) : WordMeans s (.flag true)
  | no (spelled : Text.sameLetters s "false" = true) : WordMeans s (.flag false)
  | name (noTrue : Text.sameLetters s "true" = false)
      (noFalse : Text.sameLetters s "false" = false) : WordMeans s (.name s)

/-- The sign of a number as it is written. -/
def sign (negative : Bool) : List Char :=
  if negative then ['-'] else []

/-- The whole number with a sign and some digits. -/
def signed (negative : Bool) (digits : List Char) : Int :=
  if negative then -(Decimal.natOfDigits digits : Int) else Decimal.natOfDigits digits

/-- Characters that are a lexeme, and the token they stand for. -/
inductive Lexeme : List Char → Option Token → Prop where
  | word {c cs t} (start : isNameStart c = true) (parts : ∀ d ∈ cs, isNamePart d = true)
      (means : WordMeans (String.ofList (c :: cs)) t) : Lexeme (c :: cs) (some t)
  | integer {negative digits} (run : Run Char.isDigit digits)
      (range : inWordRange (signed negative digits) = true) :
      Lexeme (sign negative ++ digits) (some (.number (.integer (signed negative digits))))
  | tooLarge {negative digits} (run : Run Char.isDigit digits)
      (range : inWordRange (signed negative digits) = false) :
      Lexeme (sign negative ++ digits) none
  | decimal {negative whole fraction} (run : Run Char.isDigit whole)
      (run' : Run Char.isDigit fraction) :
      Lexeme (sign negative ++ (whole ++ '.' :: fraction))
        (some (.number (.decimal (Decimal.nearest negative whole fraction))))
  | text {quote body s} (mark : quote = '"' ∨ quote = '\'') (quoted : Quoted quote body s) :
      Lexeme (quote :: (body ++ [quote])) (some (.text (String.ofList s)))
  | bare {name} (run : Run isVariablePart name) :
      Lexeme ('$' :: name) (some (.variable (String.ofList name)))
  | braced {name} (run : Run isVariablePart name) :
      Lexeme ('$' :: '\x7b' :: (name ++ ['\x7d'])) (some (.variable (String.ofList name)))
  | symbol (s : Symbol) : Lexeme [s.char] (some (.symbol s))

/-- The longest lexeme with which a text begins, and what is left of the text. -/
structure Longest (taken rest : List Char) (t? : Option Token) : Prop where
  lexeme : Lexeme taken t?
  longest : ∀ other u?, Lexeme other u? → other <+: taken ++ rest → other.length ≤ taken.length

/-! ## Trivia -/

/-- A blank, or a comment that runs to the end of its line: what is skipped, and what is left. -/
inductive Trivia : List Char → List Char → Prop where
  | blank {c rest} (space : isSpace c = true) : Trivia [c] rest
  | comment {mark body rest} (begun : mark = ['/', '/'] ∨ mark = ['#'])
      (line : ∀ c ∈ body, isLineEnd c = false)
      (ended : rest = [] ∨ ['\n'] <+: rest ∨ ['\r', '\n'] <+: rest) : Trivia (mark ++ body) rest

/-- Any number of blanks and comments. -/
inductive Gap : List Char → List Char → Prop where
  | nil {rest} : Gap [] rest
  | cons {piece gap rest} (first : Trivia piece (gap ++ rest)) (more : Gap gap rest) :
      Gap (piece ++ gap) rest

/-! ## Texts -/

/-- A text whose first character stands on a line is taken apart into tokens. -/
inductive Splits : Nat → List Char → List Located → Prop where
  | done {line gap} (skipped : Gap gap []) : Splits line gap []
  | token {line gap taken rest t ts} (skipped : Gap gap (taken ++ rest))
      (longest : Longest taken rest (some t))
      (more : Splits (line + (gap ++ taken).count '\n') rest ts) :
      Splits line (gap ++ (taken ++ rest)) (⟨t, line + gap.count '\n'⟩ :: ts)

/-- Nothing can be skipped. -/
def Untrivial (point : List Char) : Prop :=
  ∀ piece rest, point = piece ++ rest → ¬Trivia piece rest

/-- Something stands here, but nothing that can be skipped, and either no lexeme or one without a
token. -/
structure NoToken (point : List Char) : Prop where
  nonempty : point ≠ []
  untrivial : Untrivial point
  without : (∀ other t?, Lexeme other t? → ¬other <+: point) ∨
    ∃ taken rest, point = taken ++ rest ∧ Longest taken rest none

/-- A text whose first character stands on a line cannot be taken apart beyond a point on a line. -/
inductive Stops : Nat → List Char → Nat → List Char → Prop where
  | here {line gap point} (skipped : Gap gap point) (noToken : NoToken point) :
      Stops line (gap ++ point) (line + gap.count '\n') point
  | later {line gap taken rest t line' point} (skipped : Gap gap (taken ++ rest))
      (longest : Longest taken rest (some t))
      (more : Stops (line + (gap ++ taken).count '\n') rest line' point) :
      Stops line (gap ++ (taken ++ rest)) line' point

end Pipeworks.Config
