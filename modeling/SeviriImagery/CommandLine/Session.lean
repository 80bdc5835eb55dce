import SeviriImagery.CommandLine.Help
import SeviriImagery.CommandLine.Report
import SeviriImagery.Product.Export

/-!
# Running a command line

`run` does what a command line asks for in a file tree, and gives the tree afterwards, what goes to
the standard output, the lines of the error output and the exit code: 0 for success, 1 for an error,
2 for refused arguments.

Notes are shown as lines of the error output if they are grave enough.  How grave they must be
follows from the switches, unless it is given outright.
-/

namespace SeviriImagery.CommandLine

/-- What comes of a command line. -/
structure Outcome where
  tree : FileTree
  code : Nat
  output : List UInt8
  /-- The text of the error output. -/
  errors : String

/-- The rank up to which notes are shown at a verbosity. -/
def verbosityRank (verbosity : Nat) : Nat :=
  match verbosity with
  | 0 => Severity.warning.rank
  | 1 => Severity.info.rank
  | _ => Severity.debug.rank

/-- The rank up to which a word asks for notes to be shown; a word that is no level asks for
none. -/
def filterRank (word : String) : Nat :=
  let lower := String.ofList (word.toList.map Char.toLower)
  let level := [(Severity.error, "error"), (.warning, "warn"), (.info, "info"), (.debug, "debug"),
    (.trace, "trace")].find? fun l => l.2 == lower
  level.elim 0 fun l => l.1.rank

/-- A note as it is shown; the further lines of its words are set in. -/
def noteText (n : Note) : String :=
  let lines := (Text.fields '\n' n.message.toList).map String.ofList
  "[" ++ Text.padRight ' ' 5 n.severity.mark ++ " " ++ n.target ++ "] " ++
    "\n    ".intercalate lines ++ "\n"

/-- The notes that are shown, as text. -/
def shownNotes (rank : Nat) (notes : List Note) : String :=
  String.join ((notes.filter fun n => n.severity.rank ≤ rank).map noteText)

/-- A request that failed, by its words. -/
def failure (text : String) : String := "error: " ++ text ++ "\n"

/-- The product that a text names. -/
def product (t : FileTree) (text : String) : Noted LocatedProduct := do
  let name ← ((ProductName.ofText text).mapError Error.config : Except Error ProductName)
  t.locate name

/-- The outcome of a request that shows something and changes no file. -/
def shown (t : FileTree) (rank : Nat) (text : Noted String) : Outcome :=
  let notes := shownNotes rank text.notes
  match text.result with
  | .ok s => ⟨t, 0, Text.encode s, notes⟩
  | .error e => ⟨t, 1, [], notes ++ failure e.message⟩

/-- Puts the values of an image into a file; a hyphen stands for the standard output. -/
def writePixels (t : FileTree) (notes : String) (order : ByteOrder) (path : String)
    (i : Image) : Outcome :=
  if path = "-" then ⟨t, 0, pixelBytes i order, notes⟩
  else
    match t.write path (pixelBytes i order) with
    | .ok next => ⟨next, 0, [], notes⟩
    | .error fault => ⟨t, 1, [], notes ++ failure fault.message⟩

/-- Decodes a product. -/
def decoded (t : FileTree) (text : String) (options : DecodeOptions) : Noted Image := do
  let p ← product t text
  p.attempt t options .located

/-- Writes the counts of a product as a new product, with the radiometry of the old one. -/
def stored (t : FileTree) (text directory : String) (area : Option PixelArea) :
    FileTree × Noted String :=
  let source : Noted (Prologue × Image) := do
    let p ← product t text
    let prologue ← (t.readPrologue p.prologue : Except Error Prologue)
    let image ← p.attempt t { DecodeOptions.standard with area, calibrate := false } .located
    return (prologue, image)
  match source.result with
  | .error e => (t, ⟨source.notes, .error e⟩)
  | .ok (prologue, image) =>
      let (next, written) := t.writeImage image directory (some prologue.radiometry)
      (next, ⟨source.notes ++ written.notes, written.result.map fun n => n.text ++ "\n"⟩)

/-- Does what is requested. -/
def perform (t : FileTree) (rank : Nat) : Request → Outcome
  | .list text => shown t rank do return listing (← product t text)
  | .info text => shown t rank do
      let p ← product t text
      let prologue ← (t.readPrologue p.prologue : Except Error Prologue)
      Noted.lift (summary p prologue)
  | .decode text options none => shown t rank do return pixelText (← decoded t text options)
  | .decode text options (some (order, path)) =>
      let image := decoded t text options
      let notes := shownNotes rank image.notes
      match image.result with
      | .ok i => writePixels t notes order path i
      | .error e => ⟨t, 1, [], notes ++ failure e.message⟩
  | .store text directory area =>
      let (next, name) := stored t text directory area
      shown next rank name

/-- Does what a command line asks for; `filter` is a word for the notes to show. -/
def run (t : FileTree) (filter : Option String) (words : List String) : Outcome :=
  match arguments (.start none) words with
  | .ok (some invocation) =>
      perform t (filter.elim (verbosityRank invocation.verbosity) filterRank) invocation.request
  | .ok none => ⟨t, 2, [], Scope.program.helpText⟩
  | .error (.refused r) => ⟨t, 2, [], r.text⟩
  | .error (.help scope) => ⟨t, 0, Text.encode scope.helpText, ""⟩
  | .error .version => ⟨t, 0, Text.encode versionText, ""⟩

end SeviriImagery.CommandLine
