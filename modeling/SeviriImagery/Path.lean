import SeviriImagery.Text.Fields

/-!
# Paths

A path is a text of names with slashes between them.  One that begins with a slash starts at the
root of the file tree, any other at the working directory.

Paths are put in the order of their names, each compared as text, so that a directory's files stay
together.
-/

namespace SeviriImagery.Path

/-- Whether a path starts at the root. -/
def isAbsolute (path : String) : Bool := path.toList.head? == some '/'

/-- A path followed by another; one from the root replaces it. -/
def join (base path : String) : String :=
  if isAbsolute path || base.isEmpty then path
  else if base.toList.getLast? == some '/' then base ++ path
  else base ++ "/" ++ path

/-- The names that a path goes through, some perhaps empty. -/
def names (path : String) : List String :=
  (Text.fields '/' (if isAbsolute path then path.toList.drop 1 else path.toList)).map String.ofList

/-- A path without the slashes at its end; of the root one slash is left. -/
def withoutEndSlashes (path : String) : String :=
  match path.toList.reverse.dropWhile (· = '/') with
  | [] => if isAbsolute path then "/" else ""
  | rest => String.ofList rest.reverse

/-- A step of a path that leads somewhere: to where it starts, up or down. -/
inductive Step where
  | start (absolute : Bool)
  | up
  | down (name : String)
deriving DecidableEq, Repr

/-- The steps of a path, without those that lead nowhere. -/
def steps (path : String) : List Step :=
  let walk := (names path).filterMap fun name =>
    if name = "" ∨ name = "." then none else some (if name = ".." then .up else .down name)
  if isAbsolute path then .start true :: walk
  else if (names path).head? == some "." then .start false :: walk
  else walk

/-- Whether a path leads nowhere but to the working directory, however often it says so. -/
def isHere (path : String) : Bool := steps path == [.start false]

/-- The place of a kind of step in the order of paths. -/
def Step.rank : Step → Nat
  | .start true => 0
  | .start false => 1
  | .up => 2
  | .down _ => 3

/-- The name of a step down. -/
def Step.name : Step → String
  | .down name => name
  | _ => ""

/-- Whether a step comes before another in the order of paths. -/
def Step.lt (a b : Step) : Bool := a.rank < b.rank || (a.rank == b.rank && a.name < b.name)

/-- Whether a list of steps does not come after another. -/
def stepsLe : List Step → List Step → Bool
  | [], _ => true
  | _ :: _, [] => false
  | a :: as, b :: bs => a.lt b || (!b.lt a && stepsLe as bs)

/-- Whether a path does not come after another. -/
def le (a b : String) : Bool := stepsLe (steps a) (steps b)

/-- Paths in their order. -/
def sort (paths : List String) : List String := paths.mergeSort le

end SeviriImagery.Path
