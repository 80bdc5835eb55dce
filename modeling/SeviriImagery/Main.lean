import SeviriImagery.CommandLine.Session

/-!
# The program

The words of the command line say which directories it may speak of.  These are taken into a
`FileTree`, with the contents of the files that belong to the products named; what the command line
does is done in that tree, and the files that differ afterwards are written back.
-/

namespace SeviriImagery.CommandLine

/-- The place that a path names, from a place that relative paths start at. -/
def lexicalPlace (here : Place) (path : String) : Place :=
  (Path.steps path).foldl (fun place step =>
    match step with
    | .start true => []
    | .start false => place
    | .up => place.dropLast
    | .down name => place ++ [name]) here

/-- The directories that a word may speak of: itself, and the one it is in. -/
def spokenDirectories (word : String) : List String :=
  match Text.splitLast '/' word.toList with
  | some (before, _) => [word, String.ofList (before ++ ['/'])]
  | none => [word, "."]

/-- Whether a file belongs to a product. -/
def belongsTo (name : ProductName) (file : String) : Bool :=
  [FileKind.prologue, .epilogue, .segment].any fun kind =>
    match Wildcard.parse (name.filePattern kind).toList with
    | .ok tokens => Wildcard.isMatch tokens file.toList
    | .error _ => false

/-- The tree with the directories down to a place. -/
def withDirectories (t : FileTree) (place : Place) : FileTree :=
  (List.range place.length).foldl (fun t n => t.set (place.take (n + 1)) .directory) t

/-- The tree with a directory and what is in it. -/
def takeDirectory (products : List ProductName) (t : FileTree) (path : String) :
    IO FileTree := do
  let directory := (← IO.currentDir) / path
  if !(← directory.isDir) then return t
  let place := lexicalPlace t.workingDirectory path
  let mut tree := withDirectories t place
  for entry in ← directory.readDir do
    let inside := place ++ [entry.fileName]
    if ← entry.path.isDir then
      tree := tree.set inside .directory
    else if products.any (belongsTo · entry.fileName) then
      tree := tree.set inside (.file (← IO.FS.readBinFile entry.path).toList)
    else
      tree := tree.set inside (.file [])
  return tree

/-- Writes the files in which a tree differs from the one before. -/
def writeBack (before after : FileTree) : IO Unit := do
  for (place, entry) in after.entries do
    match entry with
    | .file bytes =>
        if before.entryAt? place ≠ some entry then
          IO.FS.writeBinFile ("/" ++ "/".intercalate place) (ByteArray.mk bytes.toArray)
    | .directory => pure ()

/-- Runs the command line. -/
def program (words : List String) : IO UInt32 := do
  let here := lexicalPlace [] (← IO.currentDir).toString
  let products := words.filterMap fun w => (ProductName.ofText w).toOption
  let start := withDirectories ⟨[], here⟩ here
  let tree ← (words.flatMap spokenDirectories).foldlM (takeDirectory products) start
  let outcome := run tree (← IO.getEnv "RUST_LOG") words
  writeBack tree outcome.tree
  (← IO.getStdout).write (ByteArray.mk outcome.output.toArray)
  (← IO.getStderr).putStr outcome.errors
  return .ofNat outcome.code

end SeviriImagery.CommandLine

/-- The program. -/
def main (words : List String) : IO UInt32 := SeviriImagery.CommandLine.program words
