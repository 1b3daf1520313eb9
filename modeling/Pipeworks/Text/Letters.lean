/-!
# ASCII letters

Case is folded for the letters of ASCII only; every other character stays as
it is.
-/

namespace Pipeworks.Text

/-- A text with its ASCII capitals lowered. -/
def lower (s : String) : String :=
  s.map Char.toLower

/-- A text with its ASCII small letters raised. -/
def upper (s : String) : String :=
  s.map Char.toUpper

/-- Equality of texts up to the case of ASCII letters. -/
def sameLetters (s t : String) : Bool :=
  lower s == lower t

/-- A text repeated `n` times. -/
def repeated (n : Nat) (s : String) : String :=
  String.join (List.replicate n s)

end Pipeworks.Text
