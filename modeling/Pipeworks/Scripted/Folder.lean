import Pipeworks.Command.Execute
import Pipeworks.Command.Path

/-!
# A folder of texts

Stands in for the files that a command can find: files by their paths from one
folder, which is where every path that does not begin with a slash begins.
Around it are the folders that every system has. There is a way up from each
place, and from the top the way up leads nowhere else.
-/

namespace Pipeworks.Scripted

/-- Files by their paths. -/
structure Folder where
  files : List (String × String)

/-- Where a path has led. -/
inductive Place where
  /-- Below the folder, or in it. -/
  | inside (parts : List String)
  /-- In some folder around it. -/
  | above
  /-- Below the top of the system. -/
  | outside (parts : List String)

/-- The folders at the top of every system. -/
def commonFolders : List String :=
  ["bin", "dev", "etc", "home", "lib", "opt", "proc", "run", "sbin", "sys", "tmp", "usr", "var"]

/-- What a folder has under a name. -/
def Place.below? (part : String) : Place → Option Place
  | .inside parts => some (.inside (parts ++ [part]))
  | .above => none
  | .outside parts => some (.outside (parts ++ [part]))

/-- The folder around a place. -/
def Place.up : Place → Place
  | .inside [] => .above
  | .inside parts => .inside parts.dropLast
  | .above => .above
  | .outside parts => .outside parts.dropLast

namespace Folder

/-- The file at the end of some parts. -/
def text? (f : Folder) (parts : List String) : Option String :=
  (f.files.find? fun file => Command.pathParts file.1 == parts).map (·.2)

/-- Whether some parts lead to a folder. -/
def holds (f : Folder) (parts : List String) : Bool :=
  parts.isEmpty || f.files.any fun file =>
    let path := Command.pathParts file.1
    parts.length < path.length && parts.isPrefixOf path

/-- Whether a place is a folder. -/
def isFolder (f : Folder) : Place → Bool
  | .inside parts => f.holds parts
  | .above => true
  | .outside [] => true
  | .outside [part] => commonFolders.contains part
  | .outside _ => false

/-- Follow the parts of a path; a part leads on only from a folder. -/
def follow? (f : Folder) (here : Place) : List String → Option Place
  | [] => some here
  | part :: rest =>
    if !f.isFolder here then none
    else if part = "" ∨ part = "." then f.follow? here rest
    else if part = ".." then f.follow? here.up rest
    else (here.below? part).bind fun here => f.follow? here rest

/-- What is said about reading a folder. -/
def isFolderText : String := "Is a directory (os error 21)"

/-- What is found at a place. The null device is empty. -/
def foundAt (f : Folder) (here : Place) : Command.Found :=
  if f.isFolder here then .unreadable isFolderText
  else
    match here with
    | .inside parts =>
      match f.text? parts with
      | some s => .text s
      | none => .missing
    | .outside ["dev", "null"] => .text ""
    | _ => .missing

/-- What is found under a path. -/
def look (f : Folder) (path : String) : Command.Found :=
  let found := match (Command.rawParts path.toList).map String.ofList with
    | [""] => none
    | "" :: parts => f.follow? (.outside []) parts
    | parts => f.follow? (.inside []) parts
  match found with
  | none => .missing
  | some here => f.foundAt here

end Folder

end Pipeworks.Scripted
