import Stencil.Dict

/-!
# File trees

A tree of folders and files, and the rules by which a path finds its way in it. A
path is followed name by name, so every name but the last must be that of a folder
that exists, also before `..`. Outside the tree there is nothing but folders that
are empty, and nothing is changed there.

A file is read as text. A path that leads nowhere is missing; a folder, a file in
the place of a folder, a name or a path that is too long and a content that is no
text are failures.

A change that is not possible changes nothing. Writing a file makes the folders
that it needs first, and these stay even if there is something in the way of the
file.
-/

namespace Stencil

/-- A folder or a file. A file whose content is not UTF-8 has no text. -/
inductive FileTree where
  | file (text : Option String)
  | folder (entries : List (String × FileTree))
  deriving Repr

/-- The outcome of reading a file as text. -/
inductive FileText where
  | found (text : String)
  | missing
  | failed
  deriving DecidableEq, Repr

namespace Path

/-- A path that follows another one. An absolute path stands for itself. -/
def join (base path : String) : String :=
  if path.startsWith "/" || base.isEmpty then path
  else if base.endsWith "/" then base ++ path
  else base ++ "/" ++ path

/-- The names of a path, empty ones included. -/
def names (path : String) : List String := path.splitOn "/"

/-- Whether a name leads from a folder to the folder itself. -/
def stays (name : String) : Bool := name = "" || name = "."

/-- The names that lead to another place. -/
def steps (path : String) : List String := (names path).filter fun name => !stays name

/-- The path without its last step. -/
def parent (path : String) : String :=
  let root := if path.startsWith "/" then "/" else ""
  root ++ "/".intercalate (steps path).dropLast

/-- Names that are longer, in UTF-8 bytes, belong to no file. -/
def longestName : Nat := 255

/-- Paths that are longer, in UTF-8 bytes, are not followed. -/
def longest : Nat := 4095

/-- Whether a path can be followed at all. None holds a zero character. -/
def usable (path : String) : Bool :=
  path.utf8ByteSize ≤ longest && !path.toList.any (· = '\x00')

/-- Whether an entry of a folder can have a name. -/
def isEntryName (name : String) : Bool :=
  !stays name && name ≠ ".." && name.utf8ByteSize ≤ longestName

end Path

/-- What a name can meet that leads no further. -/
inductive Obstacle where
  | missing
  | failed
  deriving DecidableEq, Repr

/-- A place that was reached. Inside a tree it comes with the way back: its name in
each folder around it and the entries of that folder, the innermost first. Outside
it comes with the whole tree. -/
inductive Place where
  | inside (around : List (String × List (String × FileTree))) (here : FileTree)
  | outside (tree : FileTree)

namespace Place

/-- The place where a path starts. -/
def start (tree : FileTree) (path : String) : Place :=
  if path.startsWith "/" then .outside tree else .inside [] tree

/-- The folder around a place. -/
def outer : Place → Place
  | .inside [] here => .outside here
  | .inside ((name, entries) :: around) here =>
    .inside around (.folder (Dict.insert name here entries))
  | .outside tree => .outside tree

/-- The whole tree, with what is now in its places. -/
def tree : Place → FileTree
  | .inside around here =>
    around.foldl (fun inner (name, entries) => .folder (Dict.insert name inner entries)) here
  | .outside tree => tree

/-- The way starts in the tree itself. -/
theorem tree_start (whole : FileTree) (path : String) : (start whole path).tree = whole := by
  unfold start
  split <;> rfl

/-- Going out does not change the tree. -/
theorem tree_outer (place : Place) : place.outer.tree = place.tree := by
  unfold outer
  split <;> rfl

/-- The place one name further. A long name fails even if nothing could be there. -/
def step (place : Place) (name : String) : Except Obstacle Place :=
  match place with
  | .inside _ (.file _) => .error .failed
  | .inside around (.folder entries) =>
    if Path.stays name then .ok place
    else if name = ".." then .ok place.outer
    else if !Path.isEntryName name then .error .failed
    else
      match Dict.get? name entries with
      | some inner => .ok (.inside ((name, entries) :: around) inner)
      | none => .error .missing
  | .outside _ =>
    if Path.stays name || name = ".." then .ok place
    else if !Path.isEntryName name then .error .failed
    else .error .missing

/-- The place at the end of some names. -/
def follow (place : Place) (names : List String) : Except Obstacle Place :=
  names.foldlM step place

/-- A new folder of the given name in a folder. -/
def newFolder (place : Place) (name : String) : Place :=
  match place with
  | .inside around (.folder entries) => .inside ((name, entries) :: around) (.folder [])
  | place => place

/-- Makes the folders on a way that do not exist, up to the first name that cannot be
followed. The result is the last place that was reached. -/
def makeFolders (place : Place) : List String → Place
  | [] => place
  | name :: names =>
    match place.step name with
    | .ok further => makeFolders further names
    | .error .missing => makeFolders (place.newFolder name) names
    | .error .failed => place

end Place

namespace FileTree

/-- The folder without entries. -/
def empty : FileTree := .folder []

/-- Reads the file at a path. The empty path leads nowhere. -/
def read (tree : FileTree) (path : String) : FileText :=
  if !Path.usable path then .failed
  else if path = "" then .missing
  else
    match (Place.start tree path).follow (Path.names path) with
    | .ok (.inside _ (.file (some text))) => .found text
    | .ok _ => .failed
    | .error .missing => .missing
    | .error .failed => .failed

/-- Makes the folder at a path and those around it, as far as they do not exist. A dot
at the end of the path stands for an entry of a folder that has to exist already, so
only the folders around that one are made. -/
def makeFolder (tree : FileTree) (path : String) : FileTree :=
  let steps := Path.steps path
  let dotted := ((Path.names path).filter (· ≠ "")).getLast? = some "."
  let made := if dotted then steps.dropLast else steps
  if Path.usable path then ((Place.start tree path).makeFolders made).tree else tree

/-- Changes the entry that a path ends with, if its folder exists. -/
def changeEntry (tree : FileTree) (path : String)
    (change : String → Dict FileTree → Dict FileTree) : FileTree :=
  let names := Path.names path
  let name := names.getLastD ""
  if Path.usable path && Path.isEntryName name then
    match (Place.start tree path).follow names.dropLast with
    | .ok (.inside around (.folder entries)) =>
      (Place.inside around (.folder (change name entries))).tree
    | _ => tree
  else tree

/-- Writes a file, also over another file; the text is missing if its content is not
UTF-8. The folders around it are made first. -/
def write (tree : FileTree) (path : String) (text : Option String) : FileTree :=
  (tree.makeFolder (Path.parent path)).changeEntry path fun name entries =>
    match Dict.get? name entries with
    | some (.folder _) => entries
    | _ => Dict.insert name (.file text) entries

/-- Deletes a file. The folder it was in stays, and no folder is deleted. -/
def delete (tree : FileTree) (path : String) : FileTree :=
  tree.changeEntry path fun name entries =>
    match Dict.get? name entries with
    | some (.file _) => Dict.erase name entries
    | _ => entries

end FileTree

end Stencil
