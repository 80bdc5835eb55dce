import SeviriImagery.Header.Reader

/-!
# Writing header records

Each record is written as its kind, its length and its body.  A projection name fills a field of 32
bytes with blanks behind it, and is cut there.  `writeFile` puts a primary header with the true
lengths in front of records and data.
-/

namespace SeviriImagery

/-- A record with its kind and its length in front of its body. -/
def recordBytes (kind : UInt8) (body : List UInt8) : List UInt8 :=
  kind :: Word.toBytes 2 (body.length + 3) ++ body

/-- The bytes of a primary header. -/
def PrimaryHeader.bytes (h : PrimaryHeader) : List UInt8 :=
  recordBytes 0 (h.fileType :: Word.bytes32 h.headerLength ++ Word.bytes64 h.dataBits)

/-- The bytes of an image structure record. -/
def ImageStructure.bytes (s : ImageStructure) : List UInt8 :=
  recordBytes RecordKind.imageStructure.number
    (s.bitsPerPixel :: Word.bytes16 s.columns ++ Word.bytes16 s.lines ++ [s.compression])

/-- A text in a field of `width` bytes filled with blanks, cut if it is longer. -/
def blankPadded (width : Nat) (text : String) : List UInt8 :=
  let bytes := (Text.encode text).take width
  bytes ++ List.replicate (width - bytes.length) 0x20

/-- The bytes of an image navigation record. -/
def ImageNavigation.bytes (n : ImageNavigation) : List UInt8 :=
  recordBytes RecordKind.imageNavigation.number
    (blankPadded projectionLength n.projection ++ Word.bytesSigned32 n.columnFactor ++
      Word.bytesSigned32 n.lineFactor ++ Word.bytesSigned32 n.columnOffset ++
      Word.bytesSigned32 n.lineOffset)

/-- The bytes of an annotation record. -/
def annotationBytes (text : String) : List UInt8 :=
  recordBytes RecordKind.annotationText.number (Text.encode text)

/-- The byte of a time stamp that says how it is coded. -/
def timeCodePreamble : UInt8 := 0x40

/-- The bytes of a time stamp record. -/
def TimeStamp.bytes (s : TimeStamp) : List UInt8 :=
  recordBytes RecordKind.timeStamp.number
    (timeCodePreamble :: Word.bytes16 s.days ++ Word.bytes32 s.millis)

/-- The bytes of a segment identification record. -/
def SegmentIdentification.bytes (s : SegmentIdentification) : List UInt8 :=
  recordBytes RecordKind.segmentIdentification.number
    (Word.bytes16 s.spacecraft ++ s.channel :: Word.bytes16 s.sequence ++
      Word.bytes16 s.plannedStart ++ Word.bytes16 s.plannedEnd ++ [s.dataFormat])

/-- A file of a type with records behind its primary header and then a data field of which
`dataBits` bits count. -/
def fileBytes (fileType : UInt8) (records data : List UInt8) (dataBits : Nat) : List UInt8 :=
  let primary : PrimaryHeader :=
    ⟨fileType, .ofNat (primaryLength + records.length), .ofNat dataBits⟩
  primary.bytes ++ records ++ data

end SeviriImagery
