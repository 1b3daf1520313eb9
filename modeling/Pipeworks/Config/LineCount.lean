import Pipeworks.Config.Lexer

/-!
# A count of lines that goes on

A line count is asked for the lines of places in a text, and looks only at the part of the text that it
has not looked at before. It is asked with the characters left from a place on, and these must not
become more. A lexer that asks it where each token begins need not count while it skips.
-/

namespace Pipeworks.Config

/-- A line count: the text, how much of it was looked at, and the line reached there. -/
structure LineCount where
  source : List Char
  offset : Nat
  line : Nat

namespace LineCount

def ofSource (source : List Char) : LineCount := ⟨source, 0, 1⟩

/-- Go on to the place from which some characters are left; the answer is the line there. -/
def ask (c : LineCount) (left : List Char) : Nat × LineCount :=
  let offset := c.source.length - left.length
  if c.offset < offset then
    let line := c.line + ((c.source.take offset).drop c.offset).count '\n'
    (line, { c with offset, line })
  else (c.line, c)

/-- Ask for one place after another. -/
def asks (c : LineCount) : List (List Char) → List Nat
  | [] => []
  | left :: more => (c.ask left).1 :: (c.ask left).2.asks more

end LineCount

/-- The tokens of the characters left of a text, after those in `read`, which stand in reverse; the line
of each is asked for where it begins. -/
def Token.scanWith (c : LineCount) (read : List Located) (cs : List Char) :
    Except Fault (List Located) :=
  match _h : (skipTrivia 0 cs).2 with
  | [] => .ok read.reverse
  | first :: rest =>
    let (line, c) := c.ask (first :: rest)
    match Token.munch? first rest with
    | none =>
      .error (.parse line
        (.unexpectedInput (String.ofList ((first :: rest).take excerptLength))))
    | some (t, n) => Token.scanWith c (⟨t, line⟩ :: read) (rest.drop n)
termination_by cs.length
decreasing_by
  have := length_skipTrivia 0 cs
  simp only [_h, List.length_cons] at this
  simp only [List.length_drop]
  omega

end Pipeworks.Config
