import Mathlib
import Pipeworks.Config.Lexer
import Pipeworks.Proofs.Config.Grammar

/-!
# Writing documents

The tokens of a document are written one after another, each followed by some blanks. Every
text and every key stands in double quotes, with a backslash before each quote and each
backslash in it. The width of the blanks that are not needed is free: `0` gives the most
compact text, `1` the usual one.
-/

namespace Pipeworks.Config

/-- A name that reads as itself: a letter or underscore, then letters, digits, underscores
and hyphens, and no boolean literal in any case of letters. -/
def isIdentifier (s : String) : Bool :=
  match s.toList with
  | [] => false
  | c :: rest => isNameStart c && rest.all isNamePart && !isReserved s

/-- A name of a variable that reads as itself. -/
def isVariableName (s : String) : Bool :=
  !s.toList.isEmpty && s.toList.all isVariablePart

/-- A character between double quotes. -/
def escape (c : Char) : List Char :=
  if c = '\\' ∨ c = '"' then ['\\', c] else [c]

/-- A token with the blanks after it. -/
structure Spaced where
  token : Token
  gap : List Char := []

namespace Token

/-- The characters of a token. -/
def spelling : Token → List Char
  | .name s => s.toList
  | .text s => '"' :: (s.toList.flatMap escape ++ ['"'])
  | .number n => n.text.toList
  | .flag b => (toString b).toList
  | .variable s => '$' :: '\x7b' :: (s.toList ++ ['\x7d'])
  | .symbol s => [s.char]

/-- A token that can be read back from its spelling. -/
def Spellable : Token → Prop
  | .name s => isIdentifier s
  | .number (.integer n) => inWordRange n
  | .number (.decimal _) => False
  | .variable s => isVariableName s
  | _ => True

/-- Whether a token ends only where the next character cannot continue it. -/
def isOpenEnded : Token → Bool
  | .name _ | .number _ | .flag _ => true
  | _ => false

end Token

namespace Spaced

def spelling (p : Spaced) : List Char :=
  p.token.spelling ++ p.gap

/-- A token that can be read back, and nothing but blanks after it. -/
structure Spellable (p : Spaced) : Prop where
  token : p.token.Spellable
  gap : ∀ c ∈ p.gap, isSpace c = true

/-- Two tokens that do not run together when one is written after the other. -/
def Apart (p q : Spaced) : Prop :=
  p.gap ≠ [] ∨ p.token.isOpenEnded = false ∨ q.token.isOpenEnded = false

end Spaced

/-- Tokens that can be read back when they are written one after another. -/
structure Readable (ps : List Spaced) : Prop where
  spellable : ∀ p ∈ ps, p.Spellable
  apart : ps.IsChain Spaced.Apart

/-- The blanks of a width. -/
def blanks (width : Nat) : List Char :=
  List.replicate width ' '

/-- The comma after an entry or item, unless none follows. -/
def separator {α : Type} (width : Nat) (following : List α) : List Spaced :=
  if following.isEmpty then [] else [⟨.symbol .comma, blanks width⟩]

namespace Value

mutual

/-- The tokens of a value. An absent value has none. -/
def layout (width : Nat) : Value → List Spaced
  | .text s => [⟨.text s, []⟩]
  | .flag b => [⟨.flag b, []⟩]
  | .number n => [⟨.number n, []⟩]
  | .variable name => [⟨.variable name, []⟩]
  | .reference name => [⟨.name name, []⟩]
  | .block entries =>
    ⟨.symbol .openBrace, []⟩ :: (entriesLayout width entries ++ [⟨.symbol .closeBrace, []⟩])
  | .items values =>
    ⟨.symbol .openBracket, []⟩ :: (itemsLayout width values ++ [⟨.symbol .closeBracket, []⟩])
  | .absent => []

def entriesLayout (width : Nat) : List (String × Value) → List Spaced
  | [] => []
  | (k, v) :: rest =>
    ⟨.text k, []⟩ :: ⟨.symbol .colon, blanks width⟩ ::
      (v.layout width ++ (separator width rest ++ entriesLayout width rest))

def itemsLayout (width : Nat) : List Value → List Spaced
  | [] => []
  | v :: rest => v.layout width ++ (separator width rest ++ itemsLayout width rest)

/-- A value of which every leaf can be written: integers of 64 bits, references that are
identifiers, variables with a name. -/
def Writable : Value → Prop
  | .number (.integer n) => inWordRange n
  | .number (.decimal _) => False
  | .variable name => isVariableName name
  | .reference name => isIdentifier name
  | .block entries => EntriesWritable entries
  | .items values => ItemsWritable values
  | .absent => False
  | .text _ | .flag _ => True

def EntriesWritable : List (String × Value) → Prop
  | [] => True
  | (_, v) :: rest => v.Writable ∧ EntriesWritable rest

def ItemsWritable : List Value → Prop
  | [] => True
  | v :: rest => v.Writable ∧ ItemsWritable rest

end

end Value

namespace Declaration

/-- The tokens of a declaration, on a line of its own. -/
def layout (width : Nat) (d : Declaration) : List Spaced :=
  ⟨.name d.name, blanks width⟩ :: ⟨.symbol .equals, blanks width⟩ :: ⟨.name d.kind, [' ']⟩ ::
    ⟨.name d.type, blanks width⟩ :: ⟨.symbol .openBrace, []⟩ ::
    (Value.entriesLayout width d.block ++ [⟨.symbol .closeBrace, ['\n']⟩])

/-- A declaration that can be written. -/
structure Writable (d : Declaration) : Prop where
  name : isIdentifier d.name
  kind : isIdentifier d.kind
  type : isIdentifier d.type
  block : Value.EntriesWritable d.block

/-- A declaration without its place in the text. -/
def unplaced (d : Declaration) : Declaration :=
  { d with line := 0 }

end Declaration

/-- The text of a list of tokens. -/
def spelled (ps : List Spaced) : String :=
  String.ofList (ps.flatMap Spaced.spelling)

/-- The text of a document. -/
def written (width : Nat) (ds : List Declaration) : String :=
  spelled (ds.flatMap (Declaration.layout width))

end Pipeworks.Config
