import SeviriImagery.Decimal.Literal
import SeviriImagery.Error
import SeviriImagery.Text.Blank
import SeviriImagery.Text.Utf8

/-!
# Header records

A segment file begins with a sequence of records.  The first, the primary header, says how long all
of them are together and how many bits of data follow.  The others describe the image, its
navigation and the place of the segment in its product; a file need not have them all.

`SegmentHeader` gathers the records that this library understands.  `checkImageData` says whether
they describe image data that it can read.
-/

namespace SeviriImagery

/-- The first record of a file. -/
structure PrimaryHeader where
  /-- What kind of file it is. -/
  fileType : UInt8
  /-- The length in bytes of all records, this one included. -/
  headerLength : UInt32
  /-- The length in bits of the data field. -/
  dataBits : UInt64
deriving DecidableEq, Repr

/-- The file type of image segments. -/
def imageFile : UInt8 := 0

/-- The file type of prologues. -/
def prologueFile : UInt8 := 128

/-- The file type of epilogues. -/
def epilogueFile : UInt8 := 129

/-- The length of the data field in whole bytes. -/
def PrimaryHeader.dataBytes (h : PrimaryHeader) : Nat := (h.dataBits.toNat + 7) / 8

/-- The size of a segment's image and the depth of its samples. -/
structure ImageStructure where
  bitsPerPixel : UInt8
  columns : UInt16
  lines : UInt16
  /-- 0 for samples that are not compressed. -/
  compression : UInt8
deriving DecidableEq, Repr

namespace ImageStructure

/-- The samples of a segment and their depth. -/
def shape (s : ImageStructure) : SegmentShape :=
  ⟨s.columns.toNat, s.lines.toNat, s.bitsPerPixel.toNat⟩

/-- The bits that the samples of a segment take. -/
def dataBits (s : ImageStructure) : Nat :=
  s.columns.toNat * s.lines.toNat * s.bitsPerPixel.toNat

end ImageStructure

/-- Where the pixels look. -/
structure ImageNavigation where
  /-- The projection with the longitude below the satellite, such as `GEOS(+000.0)`. -/
  projection : String
  columnFactor : Int32
  lineFactor : Int32
  columnOffset : Int32
  lineOffset : Int32
deriving DecidableEq, Repr

/-- What stands between `first` and `last` in a text that begins and ends so. -/
def enclosed? (first last text : List Char) : Option (List Char) :=
  if first.isPrefixOf text then
    let rest := text.drop first.length
    if last.isSuffixOf rest then some (rest.take (rest.length - last.length)) else none
  else none

/-- The longitude below the satellite that the name of a projection gives. -/
def ImageNavigation.longitude? (n : ImageNavigation) : Option Single := do
  let inner ← enclosed? "GEOS(".toList [')'] n.projection.toList
  let literal ← Decimal.Literal.ofText? (Text.trim inner)
  return literal.toSingle

/-- When the file was made. -/
structure TimeStamp where
  days : UInt16
  millis : UInt32
deriving DecidableEq, Repr

/-- The calendar time of a stamp. -/
def TimeStamp.time (s : TimeStamp) : Except TimeError UtcTime :=
  UtcTime.ofCode ⟨s.days.toNat, s.millis.toNat⟩

/-- The place of a segment in its product. -/
structure SegmentIdentification where
  spacecraft : UInt16
  channel : UInt8
  /-- The number of the segment, counted from one. -/
  sequence : UInt16
  plannedStart : UInt16
  /-- The number of the last segment planned. -/
  plannedEnd : UInt16
  /-- How the data field is written; 0 for a mere dump of memory. -/
  dataFormat : UInt8
deriving DecidableEq, Repr

/-- The data field format of segments that can be read. -/
def nativeFormat : UInt8 := 1

/-- Whether the data field is a mere dump of memory. -/
def SegmentIdentification.isBinaryDump (s : SegmentIdentification) : Bool := s.dataFormat == 0

/-- The header records of one file. -/
structure SegmentHeader where
  primary : PrimaryHeader
  imageStructure : Option ImageStructure
  navigation : Option ImageNavigation
  annotationText : Option String
  timeStamp : Option TimeStamp
  identification : Option SegmentIdentification
deriving DecidableEq, Repr

namespace SegmentHeader

/-- A header with no record but the primary one. -/
def ofPrimary (primary : PrimaryHeader) : SegmentHeader := ⟨primary, none, none, none, none, none⟩

/-- The image structure, which must be there. -/
def requireStructure (h : SegmentHeader) : Except ParseError ImageStructure :=
  h.imageStructure.elim (.error (.missingRecord .imageStructure)) .ok

/-- The image navigation, which must be there. -/
def requireNavigation (h : SegmentHeader) : Except ParseError ImageNavigation :=
  h.navigation.elim (.error (.missingRecord .imageNavigation)) .ok

/-- The segment identification, which must be there. -/
def requireIdentification (h : SegmentHeader) : Except ParseError SegmentIdentification :=
  h.identification.elim (.error (.missingRecord .segmentIdentification)) .ok

/-- Least and greatest depth of samples that can be read. -/
def depthIsReadable (bits : Nat) : Bool := 1 ≤ bits && bits ≤ 16

/-- Fails unless the header describes image data that can be read: an image file whose data field
is formatted, not compressed, of a readable depth and navigated. -/
def checkImageData (h : SegmentHeader) : Except ContentError Unit := do
  if h.primary.fileType ≠ imageFile then
    throw (.parse (.unexpectedFileType h.primary.fileType))
  let identification ← h.requireIdentification.mapError .parse
  if identification.isBinaryDump then throw (.format .binaryDump)
  let image ← h.requireStructure.mapError .parse
  if image.compression ≠ 0 then throw (.format (.compressed image.compression))
  if !depthIsReadable image.bitsPerPixel.toNat then
    throw (.format (.unsupportedBitsPerPixel image.bitsPerPixel.toNat))
  let _ ← h.requireNavigation.mapError .parse

/-- One line of a header's summary: a label in a column of 40 characters, and a value. -/
def summaryLine (label value : String) : String := Text.padRight ' ' 40 label ++ value ++ "\n"

/-- A summary of the records, a line for each that is there. -/
def summary (h : SegmentHeader) : String :=
  summaryLine "File type code:" (toString h.primary.fileType.toNat) ++
    summaryLine "Data field length:" (toString h.primary.dataBytes ++ " bytes") ++
    (h.identification.elim "" fun s =>
      summaryLine "Segment:" (toString s.sequence.toNat ++ " of " ++ toString s.plannedStart.toNat ++
        "-" ++ toString s.plannedEnd.toNat)) ++
    (h.imageStructure.elim "" fun s =>
      summaryLine "Segment size:" (toString s.columns.toNat ++ " x " ++ toString s.lines.toNat ++
        " (" ++ toString s.bitsPerPixel.toNat ++ " bits)")) ++
    (h.navigation.elim "" fun n => summaryLine "Projection:" n.projection)

end SegmentHeader

end SeviriImagery
