import Pipeworks.Config.Value
import Pipeworks.Fault

/-!
# Tokens of the configuration language

Seven punctuation characters, names, booleans, numbers, quoted texts and
references to variables of the environment.
-/

namespace Pipeworks.Config

/-- A punctuation character. -/
inductive Symbol where
  | openBrace
  | closeBrace
  | openBracket
  | closeBracket
  | equals
  | colon
  | comma
  deriving DecidableEq, Repr

/-- A token. -/
inductive Token where
  | name (s : String)
  | text (s : String)
  | number (n : Number)
  | flag (b : Bool)
  | variable (name : String)
  | symbol (s : Symbol)
  deriving Repr

/-- A token with the line its first character stands on, counted from one. -/
structure Located where
  token : Token
  line : Nat
  deriving Repr

namespace Symbol

def char : Symbol → Char
  | .openBrace => '\x7b'
  | .closeBrace => '\x7d'
  | .openBracket => '['
  | .closeBracket => ']'
  | .equals => '='
  | .colon => ':'
  | .comma => ','

/-- The symbols, each once. -/
def all : List Symbol :=
  [.openBrace, .closeBrace, .openBracket, .closeBracket, .equals, .colon, .comma]

def ofChar? (c : Char) : Option Symbol :=
  all.find? (·.char == c)

/-- What messages call a symbol. -/
def describe (s : Symbol) : String :=
  "'" ++ String.singleton s.char ++ "'"

end Symbol

namespace Token

/-- Whether a token is the given symbol. -/
def isSymbol (t : Token) (s : Symbol) : Bool :=
  match t with
  | .symbol s' => s' == s
  | _ => false

/-- What messages call a token. -/
def describe : Token → String
  | .name s => "identifier '" ++ s ++ "'"
  | .text s => "string " ++ inQuotes s
  | .number n => "number " ++ n.text
  | .flag b => "boolean " ++ toString b
  | .variable s => "environment reference $" ++ s
  | .symbol s => s.describe

/-- What messages call the next token, or its absence. -/
def describeNext : Option Token → String
  | none => "end of input"
  | some t => t.describe

end Token

end Pipeworks.Config
