/-!
# Words

A text can be cut after each space, so that nothing of it is lost, or at each
space, so that the spaces are left out.
-/

namespace Pipeworks.Text

/-- Some characters cut after each space. -/
def cutAfterSpaces : List Char → List (List Char)
  | [] => []
  | c :: rest =>
    if c = ' ' then [c] :: cutAfterSpaces rest
    else
      match cutAfterSpaces rest with
      | [] => [[c]]
      | piece :: pieces => (c :: piece) :: pieces

/-- The words of a text, each with the space after it. -/
def words (s : String) : List String :=
  (cutAfterSpaces s.toList).map String.ofList

/-- Some characters cut at each space. -/
def cutAtSpaces : List Char → List (List Char)
  | [] => [[]]
  | c :: rest =>
    if c = ' ' then [] :: cutAtSpaces rest
    else
      match cutAtSpaces rest with
      | [] => [[c]]
      | piece :: pieces => (c :: piece) :: pieces

/-- What stands between the spaces of a text. -/
def fields (s : String) : List String :=
  (cutAtSpaces s.toList).map String.ofList

end Pipeworks.Text
