import SeviriImagery.FileTree
import SeviriImagery.Wildcard

/-!
# Searching a file tree

The names of a pattern are compared with the names in a file tree, one directory after the other.
What a directory holds is gone through in the order of its names, in whatever order the tree has it.
A name without wildcards need not be looked for among the others: it is only asked whether it is
there.  Paths found below the working directory are given without the `./` of the pattern.

`FileTree.search` gives all paths that match a pattern, in the order of paths.
-/

namespace SeviriImagery

/-- The tokens of each name of a pattern. -/
abbrev NamePatterns := List (List Wildcard.Token)

namespace FileTree

/-- The path of a name in a directory; in the working directory it is the name alone. -/
def below (directory name : String) : String :=
  if Path.isHere directory then name else Path.join directory name

/-- The paths that a name without wildcards leads to from a directory. -/
def literalMatches (t : FileTree) (path name : String) : List String :=
  let next := below path name
  if name = "." ∨ name = ".." then
    if t.isDirectory path then [next] else []
  else if t.holds next then [next] else []

/-- Whether a place does not come after another, in the order of paths. -/
def placeLe (a b : Place) : Bool := Path.stepsLe (a.map .down) (b.map .down)

/-- The tree with its entries in the order of their places: each directory's in the order of their
names, and what a directory holds behind it. -/
def inOrder (t : FileTree) : FileTree :=
  { t with entries := t.entries.mergeSort fun a b => placeLe a.1 b.1 }

/-- The directory above a directory and the directory itself, if a pattern that begins with a dot
asks for them, and the places in it whose names match. -/
def nameMatches (t : FileTree) (path : String) (pattern : List Wildcard.Token) : List String :=
  match t.resolve path with
  | .error _ => []
  | .ok place =>
      let matching := (t.children place).filter fun c => Wildcard.isMatch pattern c.1.toList
      let dots := if pattern.head? = some (.literal '.') then
          ["..", "."].filter fun d => Wildcard.isMatch pattern d.toList
        else []
      dots.map (Path.join path) ++ matching.map fun c => below path c.1

/-- All paths below a directory, each with its last name and whether it is a directory. -/
def deepPaths (t : FileTree) (path : String) : List (String × String × Bool) :=
  match t.resolve path with
  | .error _ => []
  | .ok place => (t.descendants place).map fun d =>
      (below path ("/".intercalate d.1), d.1.getLastD "", d.2.isDirectory)

/-- The paths that the names of a pattern lead to from a path. -/
def searchFrom (t : FileTree) : NamePatterns → (path : String) → List String
  | [], path => [path]
  | [[.anyDepth]], path => ((t.deepPaths path).filter (·.2.2)).map (·.1)
  | [.anyDepth] :: pattern :: rest, path =>
      (t.deepPaths path).flatMap fun (deep, name, _) =>
        if Wildcard.isMatch pattern name.toList then t.searchFrom rest deep else []
  | pattern :: rest, path =>
      (match Wildcard.literalText? pattern with
        | some name => t.literalMatches path (String.ofList name)
        | none => if t.isDirectory path then t.nameMatches path pattern else []).flatMap
        (t.searchFrom rest)

/-- A list of name patterns in which no two neighbours stand for directories of any depth. -/
def joinDepths : NamePatterns → NamePatterns
  | [.anyDepth] :: rest =>
      match joinDepths rest with
      | [.anyDepth] :: others => [.anyDepth] :: others
      | others => [.anyDepth] :: others
  | pattern :: rest => pattern :: joinDepths rest
  | [] => []

/-- All paths that match a pattern, as one directory after the other has them. -/
def enumerate (t : FileTree) (pattern : String) : Except WildcardError (List String) := do
  let _ ← Wildcard.parse pattern.toList
  let patterns ← (Path.names pattern).mapM fun name => Wildcard.parse name.toList
  return t.searchFrom (joinDepths patterns) (if Path.isAbsolute pattern then "/" else ".")

/-- All paths that match a pattern, in the order of paths. -/
def search (t : FileTree) (pattern : String) : Except WildcardError (List String) :=
  (t.inOrder.enumerate pattern).map Path.sort

end FileTree

end SeviriImagery
