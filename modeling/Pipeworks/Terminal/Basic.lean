import Pipeworks.Fault

/-!
# The terminal

The world of the components that talk to a person: what standard input still
gives, what was written to standard output and beside it, and which streams are
in the middle of being written by which component.
-/

namespace Pipeworks

/-- Standard input and output. -/
structure Terminal where
  /-- What is still to be read. -/
  input : List UInt8
  /-- What was written, piece by piece, the latest first. -/
  written : List String
  /-- What was written to standard error, piece by piece, the latest first. -/
  asides : List String
  /-- The streams that were begun and not finished, each with the component that
  writes it. -/
  begun : List (String × String)
  deriving Repr

/-- What reading a line comes to. -/
inductive Reading where
  | line (text : String)
  /-- There is nothing more to read. -/
  | nothing
  /-- The bytes of the line are no text. -/
  | garbled
  deriving DecidableEq, Repr

namespace Terminal

/-- A terminal on which nothing was written yet. -/
def ofInput (input : List UInt8) : Terminal := ⟨input, [], [], []⟩

/-- The code of the character that ends a line. -/
def newline : UInt8 := 10

/-- The bytes of the first line, its end included, and the others. -/
def cutLine : List UInt8 → List UInt8 × List UInt8
  | [] => ([], [])
  | b :: rest =>
    if b = newline then ([b], rest)
    else
      let (line, left) := cutLine rest
      (b :: line, left)

/-- A line without the characters that end it. -/
def withoutEnd (s : String) : String :=
  String.ofList ((s.toList.reverse.dropWhile fun c => c = '\n' || c = '\r').reverse)

/-- Read a line. -/
def readLine (t : Terminal) : Reading × Terminal :=
  let (line, left) := cutLine t.input
  let t := { t with input := left }
  if line.isEmpty then (.nothing, t)
  else
    match String.fromUTF8? ⟨line.toArray⟩ with
    | some s => (.line (withoutEnd s), t)
    | none => (.garbled, t)

/-- Write a text. -/
def write (t : Terminal) (s : String) : Terminal :=
  { t with written := s :: t.written }

/-- Write a text beside the output. -/
def remark (t : Terminal) (s : String) : Terminal :=
  { t with asides := s :: t.asides }

/-- Everything that was written. -/
def output (t : Terminal) : String :=
  String.join t.written.reverse

/-- Everything that was written beside the output. -/
def remarks (t : Terminal) : String :=
  String.join t.asides.reverse

end Terminal

end Pipeworks
