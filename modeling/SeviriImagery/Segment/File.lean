import SeviriImagery.FileTree
import SeviriImagery.Header.Reader
import SeviriImagery.Packing
import SeviriImagery.Prologue
import SeviriImagery.Segment.Source

/-!
# Files of a product

Segments, prologues and epilogues are read from the files of a tree.  An error in a file names the
file.  A directory can be opened in the place of a file, but nothing can be read from it.

`SegmentSource.ofFiles` is the source of the segments in some files.  It accepts a segment only if
it has the shape that is expected of all.
-/

namespace SeviriImagery

namespace FileTree

/-- The bytes that can be read where a path leads. -/
def readBytes (t : FileTree) (path : String) : Except Error (List UInt8) :=
  match t.find path with
  | .error fault => .error (.file path (.io fault))
  | .ok .directory => .error (.file path (.content (.parse (.read (.io .isDirectory)))))
  | .ok (.file bytes) => .ok bytes

/-- The header records of a file. -/
def readHeader (t : FileTree) (path : String) : Except Error SegmentHeader := do
  let bytes ← t.readBytes path
  let (header, _) ← inFile path ((SegmentHeader.readFrom bytes).mapError .parse)
  return header

/-- The header records and the data field of a file. -/
def headerAndData (t : FileTree) (path : String) : Except Error (SegmentHeader × List UInt8) := do
  let bytes ← t.readBytes path
  inFile path ((SegmentHeader.readFile bytes).mapError .parse)

/-- The data field of a file that must be of a type. -/
def readDataField (t : FileTree) (path : String) (fileType : UInt8) :
    Except Error (List UInt8) := do
  let (header, data) ← t.headerAndData path
  if header.primary.fileType ≠ fileType then
    throw (.file path (.content (.parse (.unexpectedFileType header.primary.fileType))))
  return data

/-- The prologue in a file. -/
def readPrologue (t : FileTree) (path : String) : Except Error Prologue := do
  let data ← t.readDataField path prologueFile
  inFile path (Prologue.ofDataField data)

/-- The epilogue in a file. -/
def readEpilogue (t : FileTree) (path : String) : Except Error Epilogue := do
  let data ← t.readDataField path epilogueFile
  inFile path (Epilogue.ofDataField data)

end FileTree

/-- The samples in the data field of a segment with these header records, which must describe image
data of the expected shape. -/
def SegmentHeader.samples (h : SegmentHeader) (data : List UInt8) (expected : SegmentShape) :
    Except ContentError (Array Nat) := do
  h.checkImageData
  let image ← h.requireStructure.mapError .parse
  let found := image.shape
  if found ≠ expected then throw (.format (.geometryMismatch (.shape expected found)))
  (Packing.unpack data found.bitsPerPixel found.pixels).mapError .format

/-- The samples of the segment in a file. -/
def FileTree.readSamples (t : FileTree) (path : String) (expected : SegmentShape) :
    Except Error (Array Nat) := do
  let (header, data) ← t.headerAndData path
  inFile path (header.samples data expected)

/-- The source of the segments in some files; a segment without a file is absent. -/
def SegmentSource.ofFiles (t : FileTree) (paths : List (Option String)) (shape : SegmentShape) :
    SegmentSource where
  count := paths.length
  isPresent index := (paths[index]?.getD none).isSome
  load index :=
    match paths[index]?.getD none with
    | some path => t.readSamples path shape
    | none => .error (.value (.segmentUnavailable index))

end SeviriImagery
