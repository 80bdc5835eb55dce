import SeviriImagery.Error
import SeviriImagery.Path

/-!
# File trees

A `FileTree` holds directories and files by the list of names that leads to them from the root, and
says where paths that do not start at the root begin.  `resolve` follows a path name by name, as an
operating system does: `.` and empty names stay, `..` goes up, and every name but the last must be
that of a directory.

`write` makes a file or replaces its content.  It makes no directory.
-/

namespace SeviriImagery

/-- What stands at a place of a file tree. -/
inductive Entry where
  | directory
  | file (content : List UInt8)
deriving DecidableEq

/-- Whether an entry is a directory. -/
def Entry.isDirectory : Entry → Bool
  | .directory => true
  | .file _ => false

/-- The names that lead from the root to a place. -/
abbrev Place := List String

/-- Directories and files. -/
structure FileTree where
  entries : List (Place × Entry)
  workingDirectory : Place

namespace FileTree

/-- A tree with nothing but the directories down to the working directory. -/
def empty (workingDirectory : Place) : FileTree :=
  ⟨(List.range workingDirectory.length).map fun n => (workingDirectory.take (n + 1), .directory),
    workingDirectory⟩

/-- What stands at a place; the root is always a directory. -/
def entryAt? (t : FileTree) (place : Place) : Option Entry :=
  if place.isEmpty then some .directory else t.entries.lookup place

/-- The longest name, in bytes. -/
def nameLimit : Nat := 255

/-- The longest path, in bytes. -/
def pathLimit : Nat := 4095

/-- The place to which a name leads from a place. -/
def follow (t : FileTree) (place : Place) (name : String) : Except IoFault Place :=
  match t.entryAt? place with
  | some .directory =>
      if name = "" ∨ name = "." then .ok place
      else if name = ".." then .ok place.dropLast
      else if nameLimit < name.utf8ByteSize then .error .nameTooLong
      else if (t.entryAt? (place ++ [name])).isSome then .ok (place ++ [name])
      else .error .notFound
  | some (.file _) => .error .notDirectory
  | none => .error .notFound

/-- The place at which a path starts. -/
def start (t : FileTree) (path : String) : Place :=
  if Path.isAbsolute path then [] else t.workingDirectory

/-- Fails if a text is no path at all. -/
def checkPath (path : String) : Except IoFault Unit :=
  if path.toList.contains (Char.ofNat 0) then .error .nulInPath
  else if path.isEmpty then .error .notFound
  else if pathLimit < path.utf8ByteSize then .error .nameTooLong
  else .ok ()

/-- The place to which a path leads. -/
def resolve (t : FileTree) (path : String) : Except IoFault Place := do
  checkPath path
  (Path.names path).foldlM t.follow (t.start path)

/-- What stands where a path leads. -/
def find (t : FileTree) (path : String) : Except IoFault Entry := do
  let place ← t.resolve path
  return (t.entryAt? place).getD .directory

/-- Whether a path leads anywhere. -/
def holds (t : FileTree) (path : String) : Bool := (t.resolve path).isOk

/-- Whether a path leads to a directory. -/
def isDirectory (t : FileTree) (path : String) : Bool :=
  match t.find path with
  | .ok .directory => true
  | _ => false

/-- The content of the file to which a path leads. -/
def content (t : FileTree) (path : String) : Except IoFault (List UInt8) := do
  match ← t.find path with
  | .file bytes => return bytes
  | .directory => throw .isDirectory

/-- The entries with one put in its place, where there may be another. -/
def put (place : Place) (entry : Entry) : List (Place × Entry) → List (Place × Entry)
  | [] => [(place, entry)]
  | (p, e) :: rest => if p = place then (p, entry) :: rest else (p, e) :: put place entry rest

/-- The tree with an entry put in its place. -/
def set (t : FileTree) (place : Place) (entry : Entry) : FileTree :=
  { t with entries := put place entry t.entries }

/-- The place at which a path puts a file: the name that it ends with, in the directory to which
the names before lead.  A path that does not end with a name is that of a directory. -/
def newPlace (t : FileTree) (path : String) : Except IoFault Place := do
  let names := Path.names path
  let directory ← (names.dropLast ++ ["."]).foldlM t.follow (t.start path)
  let name := names.getLastD ""
  if name = "" ∨ name = "." ∨ name = ".." then throw .isDirectory
  if nameLimit < name.utf8ByteSize then throw .nameTooLong
  return directory ++ [name]

/-- Makes a file with a content, or gives it to a file that is there. -/
def write (t : FileTree) (path : String) (bytes : List UInt8) : Except IoFault FileTree := do
  checkPath path
  let place ← t.newPlace (Path.withoutEndSlashes path)
  if Path.withoutEndSlashes path ≠ path ∨ t.entryAt? place = some .directory then throw .isDirectory
  return t.set place (.file bytes)

/-- Makes the directories on a path that are not there yet. -/
def createDirectories (t : FileTree) (path : String) : FileTree :=
  ((Path.names path).foldl (fun (t, place) name =>
    match t.follow place name with
    | .ok next => (t, next)
    | .error _ => (t.set (place ++ [name]) .directory, place ++ [name])) (t, t.start path)).1

/-- The tree without the file to which a path leads. -/
def remove (t : FileTree) (path : String) : Except IoFault FileTree := do
  let place ← t.resolve path
  match t.entryAt? place with
  | some (.file _) => return { t with entries := t.entries.filter (fun e => e.1 ≠ place) }
  | _ => throw .isDirectory

/-- The names in a directory, with what they are names of. -/
def children (t : FileTree) (place : Place) : List (String × Entry) :=
  t.entries.filterMap fun (p, e) =>
    match p.getLast? with
    | some name => if p.dropLast = place then some (name, e) else none
    | none => none

/-- All places below a place, by the names that lead there from it. -/
def descendants (t : FileTree) (place : Place) : List (Place × Entry) :=
  t.entries.filterMap fun (p, e) =>
    if place.isPrefixOf p && p.length != place.length then some (p.drop place.length, e) else none

end FileTree

end SeviriImagery
