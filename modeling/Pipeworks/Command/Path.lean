/-!
# Paths

The name of a file is the last part of its path, apart from parts that are empty
or a single period. Its extension is what follows the last period in the name,
unless that is where the name begins.
-/

namespace Pipeworks.Command

/-- The parts of a path between slashes. -/
def rawParts : List Char → List (List Char)
  | [] => [[]]
  | c :: rest =>
    if c = '/' then [] :: rawParts rest
    else
      match rawParts rest with
      | [] => [[c]]
      | part :: parts => (c :: part) :: parts

/-- The parts of a path that lead somewhere. -/
def pathParts (path : String) : List String :=
  ((rawParts path.toList).map String.ofList).filter fun part => part ≠ "" ∧ part ≠ "."

/-- The name of the file of a path, if the path does not lead upwards. -/
def fileName? (path : String) : Option String :=
  (pathParts path).getLast?.filter (· ≠ "..")

/-- The extension of a path. -/
def extension? (path : String) : Option String :=
  (fileName? path).bind fun name =>
    let cs := name.toList
    let after := (cs.reverse.takeWhile (· != '.')).reverse
    if cs.length ≤ after.length + 1 then none else some (String.ofList after)

/-- Whether a path has the extension of documents. -/
def isDocumentPath (path : String) : Bool :=
  extension? path == some "ww"

end Pipeworks.Command
