/-!
# The words of the command line

A command line names a task, its operands and any number of switches.  Some switches take a value.
Here are the words themselves; `CommandLine.Setting` reads the values, and `CommandLine.Arguments`
says how words follow each other.
-/

namespace SeviriImagery.CommandLine

/-- What the program can be asked to do. -/
inductive Task where
  | decode
  | store
  | info
  | list
deriving DecidableEq, Repr

/-- Something a task is done to. -/
inductive Operand where
  | product
  | outputDirectory
deriving DecidableEq, Repr

/-- The place of an operand in a usage line. -/
def Operand.placeholder : Operand → String
  | .product => "<PRODUCT>"
  | .outputDirectory => "<OUT_DIR>"

namespace Task

/-- All tasks. -/
def all : List Task := [decode, store, info, list]

/-- The word for a task. -/
def word : Task → String
  | decode => "decode"
  | store => "export"
  | info => "info"
  | list => "list"

/-- The word that asks for help. -/
def helpWord : String := "help"

/-- All words that may stand where a task is named. -/
def words : List String := all.map word ++ [helpWord]

/-- The task that a word names. -/
def ofWord? (word : String) : Option Task := all.find? (fun t => t.word == word)

/-- The operands of a task, all of which must be given. -/
def operands : Task → List Operand
  | store => [.product, .outputDirectory]
  | _ => [.product]

end Task

/-- A switch. -/
inductive Switch where
  | area
  | geo
  | raw
  | bigEndian
  | littleEndian
  | verbose
  | help
  | version
deriving DecidableEq, Repr

namespace Switch

/-- The name of a switch, behind two hyphens. -/
def longName : Switch → String
  | area => "area"
  | geo => "geo"
  | raw => "raw"
  | bigEndian => "big-endian"
  | littleEndian => "little-endian"
  | verbose => "verbose"
  | help => "help"
  | version => "version"

/-- A switch by its name alone. -/
def name (s : Switch) : String := "--" ++ s.longName

/-- The letter of a switch, behind one hyphen. -/
def letter? : Switch → Option Char
  | bigEndian => some 'b'
  | littleEndian => some 'l'
  | verbose => some 'v'
  | help => some 'h'
  | version => some 'V'
  | _ => none

/-- The place of a switch's value in a usage line, if it takes one. -/
def placeholder? : Switch → Option String
  | area | geo => some "<AREA>"
  | bigEndian | littleEndian => some "<OUT_FILE>"
  | _ => none

/-- Whether the value of a switch may begin with a hyphen. -/
def allowsHyphen : Switch → Bool
  | geo => true
  | _ => false

/-- A switch as messages show it; dots follow one that may be repeated. -/
def text (s : Switch) : String :=
  s.name ++
    (match s.placeholder? with
      | some p => " " ++ p
      | none => if s = verbose then "..." else "")

/-- The switch that cannot stand beside a switch. -/
def rival? : Switch → Option Switch
  | area => some geo
  | geo => some area
  | bigEndian => some littleEndian
  | littleEndian => some bigEndian
  | _ => none

/-- The switches of a task, or those that stand before the task, in the order of the help. -/
def availableFor : Option Task → List Switch
  | none => [verbose, help, version]
  | some .decode => [area, geo, raw, bigEndian, littleEndian, verbose, help]
  | some .store => [area, verbose, help]
  | some _ => [verbose, help]

end Switch

end SeviriImagery.CommandLine
