import SeviriImagery.CommandLine.Usage
import SeviriImagery.Text.Pad

/-!
# Help

Help says what a scope is about and how it is used, and describes each of its tasks, operands and
switches.  `Scope.helpText` is its text, in sections with empty lines between them.
-/

namespace SeviriImagery.CommandLine

/-- What a task does. -/
def Task.about : Task → String
  | .decode => "Export decoded pixel values"
  | .store => "Write raw counts of a product, or of an area of it, as a new product"
  | .info => "Show identification information of a product"
  | .list => "List files making up a product"

/-- What the help does. -/
def helpAbout : String := "Print this message or the help of the given subcommand(s)"

/-- What an operand is. -/
def Operand.about : Operand → String
  | .product => "Product as <DIR>/<RESOLUTION>:<PRODUCT_ID1>:<PRODUCT_ID2>:<TIMING>"
  | .outputDirectory => "Directory to write to"

/-- What a switch does, among those of a task or in front of it. -/
def Switch.about (task : Option Task) : Switch → String
  | .area => (if task = some .store then "Export" else "Decode") ++
      " only the pixels of X,Y,WIDTH,HEIGHT"
  | .geo => "Decode only the pixels covering LATMIN,LATMAX,LONMIN,LONMAX"
  | .raw => "Keep raw counts instead of physical values"
  | .bigEndian => "Export as a big-endian flat binary file"
  | .littleEndian => "Export as a little-endian flat binary file"
  | .verbose => "Report progress on standard error (repeat for more detail)"
  | .help => "Print help"
  | .version => "Print version"

/-- A switch with its letter, if it has one, in front. -/
def Switch.entry (s : Switch) : String :=
  (match s.letter? with
    | some c => String.ofList ['-', c, ',', ' ']
    | none => "    ") ++ s.text

/-- A heading with rows of two columns under it, the first as wide as its entries need. -/
def helpSection (heading : String) (rows : List (String × String)) : List String :=
  let width := (rows.map fun r => r.1.length).foldl max 0
  let lines := rows.map fun r => "  " ++ Text.padRight ' ' width r.1 ++ "  " ++ r.2
  if rows.isEmpty then [] else ["\n".intercalate (heading :: lines)]

namespace Scope

/-- The help of a scope. -/
def helpText (scope : Scope) : String :=
  let switches := fun (task : Option Task) =>
    helpSection "Options:" ((Switch.availableFor task).map fun s => (s.entry, s.about task))
  let usage := (Usage.general scope).text
  let sections := match scope with
    | .program =>
        [usage] ++ helpSection "Commands:"
          (Task.all.map (fun t => (t.word, t.about)) ++ [(Task.helpWord, helpAbout)]) ++ switches none
    | .task t =>
        [t.about, usage] ++
          helpSection "Arguments:" (t.operands.map fun o => (o.placeholder, o.about)) ++
          switches (some t)
    | .help =>
        [helpAbout, usage] ++
          helpSection "Arguments:" [("[COMMAND]...", "Print help for the subcommand(s)")]
  "\n\n".intercalate sections ++ "\n"

end Scope

end SeviriImagery.CommandLine
