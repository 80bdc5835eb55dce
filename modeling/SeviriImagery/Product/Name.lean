import SeviriImagery.Path
import SeviriImagery.Text.Pad
import SeviriImagery.Wildcard

/-!
# Product names

The files of a product share a directory and four parts of their names: the resolution, two product
identifiers and the time.  A `ProductName` gathers these, and is itself written like a path,
`<directory>/<resolution>:<product id 1>:<product id 2>:<timing>`.

From a name follow the names of the files that are written under it, and the patterns by which its
files are searched.  Identifiers in file names are filled up with underscores.  Prologue and
epilogue belong to all products that differ in the second identifier only.
-/

namespace SeviriImagery

/-- Where the files of a product are and what their names have in common. -/
structure ProductName where
  directory : String
  resolution : String
  productId1 : String
  productId2 : String
  timing : String
deriving DecidableEq, Repr

/-- The kinds of files that a product has. -/
inductive FileKind where
  | prologue
  | epilogue
  | segment
deriving DecidableEq, Repr

namespace NamePart

/-- The bytes that a part may have. -/
def limit : NamePart → Nat
  | .resolution => 1
  | .productId1 => 12
  | .productId2 => 9
  | .timing => 12

/-- Whether a character would be mistaken for a wildcard or a mark between parts. -/
def isForbidden (c : Char) : Bool :=
  c == '/' || c == '*' || c == '?' || c == '[' || c == ']' || c == '-'

/-- Fails unless `value` can be this part of a name. -/
def check (part : NamePart) (value : String) : Except ConfigError Unit :=
  if value.isEmpty then .error (.missingPart part)
  else if part.limit < value.utf8ByteSize then .error (.longPart part value part.limit)
  else if value.toList.any isForbidden then .error (.forbiddenCharacter part value)
  else .ok ()

end NamePart

namespace ProductName

/-- Fails unless all parts can be parts of a name. -/
def check (n : ProductName) : Except ConfigError Unit := do
  NamePart.resolution.check n.resolution
  NamePart.productId1.check n.productId1
  NamePart.productId2.check n.productId2
  NamePart.timing.check n.timing

/-- A name of four parts in a directory, if it can be one. -/
def checked (n : ProductName) : Except ConfigError ProductName := do
  n.check
  return n

/-- The directory that the text of a name begins with, and what stands behind it.  With nothing
before its last slash a text begins with the root, and without a slash with the working directory. -/
def splitDirectory (text : String) : String × String :=
  match Text.splitLast '/' text.toList with
  | some ([], behind) => ("/", String.ofList behind)
  | some (before, behind) => (String.ofList before, String.ofList behind)
  | none => (".", text)

/-- The name that a text is, if it is one. -/
def ofText (text : String) : Except ConfigError ProductName :=
  let (directory, label) := splitDirectory text
  match (Text.fields ':' label.toList).map String.ofList with
  | [resolution, productId1, productId2, timing] =>
      checked ⟨directory, resolution, productId1, productId2, timing⟩
  | _ => .error (.notAProductName text)

/-- A name as it is shown. -/
def text (n : ProductName) : String :=
  n.directory ++ "/" ++ n.resolution ++ ":" ++ n.productId1 ++ ":" ++ n.productId2 ++ ":" ++ n.timing

/-- The second identifier in the names of files of a kind. -/
def identifierFor (n : ProductName) : FileKind → String
  | .segment => n.productId2
  | _ => "_"

/-- What stands for the sequence number in a pattern for files of a kind. -/
def sequencePattern : FileKind → String
  | .prologue => "PRO______"
  | .epilogue => "EPI______"
  | .segment => "0?????___"

/-- The pattern for the names of files of a kind, with the directory left out. -/
def filePattern (n : ProductName) (kind : FileKind) : String :=
  n.resolution ++ "-???-??????-" ++ Text.underscorePadded n.productId1 12 ++ "-" ++
    Text.underscorePadded (n.identifierFor kind) 9 ++ "-" ++ sequencePattern kind ++ "-" ++
    n.timing ++ "-?_"

/-- The pattern for the paths of files of a kind. -/
def pattern (n : ProductName) (kind : FileKind) : String :=
  Path.join (Wildcard.escape n.directory) (n.filePattern kind)

/-- The name of a file of a kind with a text in place of the sequence number. -/
def fileName (n : ProductName) (kind : FileKind) (sequence : String) : String :=
  n.resolution ++ "-000-" ++ Text.underscorePadded n.productId1 6 ++ "-" ++
    Text.underscorePadded n.productId1 12 ++ "-" ++
    Text.underscorePadded (n.identifierFor kind) 9 ++ "-" ++ sequence ++ "-" ++ n.timing ++ "-C_"

/-- The name of the prologue. -/
def prologueName (n : ProductName) : String := n.fileName .prologue (sequencePattern .prologue)

/-- The name of the epilogue. -/
def epilogueName (n : ProductName) : String := n.fileName .epilogue (sequencePattern .epilogue)

/-- The name of the segment with a sequence number. -/
def segmentName (n : ProductName) (sequence : Nat) : String :=
  n.fileName .segment (Text.zeroPadded 6 sequence ++ "___")

end ProductName

end SeviriImagery
