import SeviriImagery.Channel
import SeviriImagery.FileTree
import SeviriImagery.Header.Writer
import SeviriImagery.Note
import SeviriImagery.Packing
import SeviriImagery.Product.Name
import SeviriImagery.Prologue

/-!
# Laying out the files of a product

A `ProductLayout` is what all files of a product have in common.  From it follow the path and the
bytes of its prologue, its epilogue and each of its segments, which are made without touching any
file tree; `FileTree.store` then puts a file made so into a tree.

Samples are given in the order in which they are stored, and so are the factors and offsets: a
negative factor says that storing begins in the south or in the east.
-/

namespace SeviriImagery

/-- A file that is to be written. -/
structure NewFile where
  path : String
  bytes : List UInt8
deriving DecidableEq

/-- What the files of a product have in common. -/
structure ProductLayout where
  name : ProductName
  /-- The satellite, by its number in segment files. -/
  spacecraft : UInt16
  channel : Channel
  bitsPerPixel : UInt8
  segmentColumns : UInt16
  segmentLines : UInt16
  /-- The number of the last segment planned. -/
  plannedEnd : UInt16
  columnFactor : Int32
  lineFactor : Int32
  columnOffset : Int32
  lineOffset : Int32
  /-- The longitude below the satellite in degrees. -/
  longitude : Single
  time : UtcTime
  /-- The data field format that segments declare. -/
  dataFormat : UInt8

namespace ProductLayout

/-- The path of a file of the product. -/
def path (l : ProductLayout) (fileName : String) : String := Path.join l.name.directory fileName

/-- The file of the prologue. -/
def prologueFile (l : ProductLayout) (p : Prologue) : Except Error NewFile := do
  let data ← p.toDataField.mapError fun e => Error.value (.time e)
  return ⟨l.path l.name.prologueName, fileBytes SeviriImagery.prologueFile [] data (data.length * 8)⟩

/-- The file of the epilogue. -/
def epilogueFile (l : ProductLayout) (e : Epilogue) : NewFile :=
  let data := e.toDataField
  ⟨l.path l.name.epilogueName, fileBytes SeviriImagery.epilogueFile [] data (data.length * 8)⟩

/-- The samples of a segment. -/
def segmentPixels (l : ProductLayout) : Nat := l.segmentColumns.toNat * l.segmentLines.toNat

/-- The name of the projection, with the longitude in degrees to one place. -/
def projection (l : ProductLayout) : String :=
  "GEOS(" ++ Decimal.signedFixedSingle 6 1 l.longitude.value ++ ")"

/-- The image structure record of every segment. -/
def imageStructure (l : ProductLayout) : ImageStructure :=
  ⟨l.bitsPerPixel, l.segmentColumns, l.segmentLines, 0⟩

/-- The image navigation record of every segment. -/
def navigation (l : ProductLayout) : ImageNavigation :=
  ⟨l.projection, l.columnFactor, l.lineFactor, l.columnOffset, l.lineOffset⟩

/-- The segment identification record of a segment. -/
def identification (l : ProductLayout) (sequence : UInt16) : SegmentIdentification :=
  ⟨l.spacecraft, l.channel.number, sequence, 1, l.plannedEnd, l.dataFormat⟩

/-- The records of a segment behind its primary header. -/
def segmentRecords (l : ProductLayout) (sequence : UInt16) (stamp : TimeStamp) : List UInt8 :=
  l.imageStructure.bytes ++ (l.navigation.bytes ++
    (annotationBytes (l.name.segmentName sequence.toNat) ++
      (stamp.bytes ++ (l.identification sequence).bytes)))

/-- The file of a segment. -/
def segmentFile (l : ProductLayout) (sequence : UInt16) (samples : Array Nat) :
    Except Error NewFile := do
  if samples.size ≠ l.segmentPixels then
    throw (.value (.segmentSamples sequence.toNat l.segmentPixels samples.size))
  let code ← l.time.toCode.mapError fun e => Error.value (.time e)
  let data := Packing.pack samples l.bitsPerPixel.toNat
  let records := l.segmentRecords sequence ⟨.ofNat code.days, .ofNat code.millis⟩
  return ⟨l.path (l.name.segmentName sequence.toNat),
    fileBytes imageFile records data (samples.size * l.bitsPerPixel.toNat)⟩

end ProductLayout

namespace FileTree

/-- Writes a file, and gives its path. -/
def store (t : FileTree) (file : NewFile) : FileTree × Noted String :=
  match t.write file.path file.bytes with
  | .ok next => (next, ⟨[.fileWritten file.path], .ok file.path⟩)
  | .error fault => (t, .lift (.error (.file file.path (.io fault))))

/-- Writes files one after the other, up to the first that cannot be written. -/
def storeAll (t : FileTree) : List NewFile → FileTree × Noted Unit
  | [] => (t, pure ())
  | file :: rest =>
      let (next, first) := t.store file
      match first.result with
      | .ok _ =>
          let (last, others) := next.storeAll rest
          (last, ⟨first.notes ++ others.notes, others.result⟩)
      | .error e => (next, ⟨first.notes, .error e⟩)

end FileTree

end SeviriImagery
