import SeviriImagery.Header.Record
import SeviriImagery.Word

/-!
# Reading header records

Each record begins with its kind, one byte, and its length, two bytes, which counts these three as
well.  `SegmentHeader.ofBytes` reads the primary header and then record after record until the
total length that the primary header declares is used up.  A record of a kind that the library does
not know is passed over, and of two records of one kind the later counts.

`SegmentHeader.readFrom` reads a header at the start of a file and hands on what follows it, and
`readDataField` takes the data field from there.
-/

namespace SeviriImagery

/-- The length of the primary header. -/
def primaryLength : Nat := 16

/-- No header may be longer than this. -/
def headerLimit : Nat := 65536

/-- The bytes that a projection name takes. -/
def projectionLength : Nat := 32

/-- The kinds of records that the library understands, and their numbers. -/
inductive RecordKind where
  | imageStructure | imageNavigation | annotationText | timeStamp | segmentIdentification
deriving DecidableEq, Repr

namespace RecordKind

/-- The kind with a number. -/
def ofNumber? (n : UInt8) : Option RecordKind :=
  if n = 1 then some imageStructure
  else if n = 2 then some imageNavigation
  else if n = 4 then some annotationText
  else if n = 5 then some timeStamp
  else if n = 128 then some segmentIdentification
  else none

/-- The number of a kind. -/
def number : RecordKind → UInt8
  | imageStructure => 1 | imageNavigation => 2 | annotationText => 4 | timeStamp => 5
  | segmentIdentification => 128

/-- The least length of a record, its kind and length included. -/
def leastLength : RecordKind → Nat
  | imageStructure => 9 | imageNavigation => 51 | annotationText => 3 | timeStamp => 10
  | segmentIdentification => 13

end RecordKind

/-- A field of text, without the NULs and blanks that fill it up. -/
def textField (bytes : List UInt8) : String :=
  String.ofList (Text.trimEndWhere (fun c => c == Char.ofNat 0 || c == ' ') (Text.decode bytes))

/-- The image structure in a record's body. -/
def ImageStructure.ofBody (body : List UInt8) : ImageStructure :=
  ⟨Word.byte body 0, Word.uint16 body 1, Word.uint16 body 3, Word.byte body 5⟩

/-- The image navigation in a record's body. -/
def ImageNavigation.ofBody (body : List UInt8) : ImageNavigation where
  projection := textField (body.take projectionLength)
  columnFactor := Word.int32 body projectionLength
  lineFactor := Word.int32 body (projectionLength + 4)
  columnOffset := Word.int32 body (projectionLength + 8)
  lineOffset := Word.int32 body (projectionLength + 12)

/-- The time stamp in a record's body, whose first byte says how times are coded. -/
def TimeStamp.ofBody (body : List UInt8) : TimeStamp := ⟨Word.uint16 body 1, Word.uint32 body 3⟩

/-- The segment identification in a record's body. -/
def SegmentIdentification.ofBody (body : List UInt8) : SegmentIdentification where
  spacecraft := Word.uint16 body 0
  channel := Word.byte body 2
  sequence := Word.uint16 body 3
  plannedStart := Word.uint16 body 5
  plannedEnd := Word.uint16 body 7
  dataFormat := Word.byte body 9

namespace SegmentHeader

/-- A header in which the record of a kind is replaced by the one with this body. -/
def withRecord (h : SegmentHeader) (kind : RecordKind) (body : List UInt8) : SegmentHeader :=
  match kind with
  | .imageStructure => { h with imageStructure := some (.ofBody body) }
  | .imageNavigation => { h with navigation := some (.ofBody body) }
  | .annotationText => { h with annotationText := some (textField body) }
  | .timeStamp => { h with timeStamp := some (.ofBody body) }
  | .segmentIdentification => { h with identification := some (.ofBody body) }

/-- A header with one more record, unless the record is too short for its kind or is a second
primary header. -/
def addRecord (h : SegmentHeader) (kind : UInt8) (length : Nat) (body : List UInt8) :
    Except ParseError SegmentHeader :=
  if kind = 0 then .error (.invalidRecordLength 0 length)
  else
    match RecordKind.ofNumber? kind with
    | none => .ok h
    | some k =>
        if length < k.leastLength then .error (.invalidRecordLength kind length)
        else .ok (h.withRecord k body)

/-- Adds the records that stand between `offset` and `total` in a buffer of `size` bytes; `rest` is
what the buffer holds from `offset` on. -/
def addRecords (size total offset : Nat) (rest : List UInt8) (h : SegmentHeader) :
    Except ParseError SegmentHeader :=
  if offset < total then
    match rest with
    | kind :: high :: low :: body =>
        let length := Word.ofBytes [high, low]
        if length < 3 ∨ total < offset + length then .error (.invalidRecordLength kind length)
        else
          match h.addRecord kind length (body.take (length - 3)) with
          | .error e => .error e
          | .ok next => addRecords size total (offset + length) (body.drop (length - 3)) next
    | _ => .error (.unexpectedEnd size)
  else if offset ≠ total then .error (.headerLengthMismatch total offset)
  else .ok h
termination_by total - offset

end SegmentHeader

/-- The primary header at the start of a buffer. -/
def PrimaryHeader.ofBytes (buffer : List UInt8) : Except ParseError PrimaryHeader :=
  let kind := Word.byte buffer 0
  let length := Word.field buffer 1 2
  let total := Word.uint32 buffer 4
  if buffer.length < primaryLength then .error (.unexpectedEnd buffer.length)
  else if kind ≠ 0 then .error (.notPrimaryHeader kind)
  else if length ≠ primaryLength then .error (.invalidRecordLength 0 length)
  else if total.toNat < primaryLength then .error (.headerLengthMismatch total.toNat primaryLength)
  else if headerLimit < total.toNat then .error (.headerTooLong total.toNat)
  else .ok ⟨Word.byte buffer 3, total, Word.uint64 buffer 8⟩

namespace SegmentHeader

/-- The header records at the start of a buffer. -/
def ofBytes (buffer : List UInt8) : Except ParseError SegmentHeader := do
  let primary ← PrimaryHeader.ofBytes buffer
  let total := primary.headerLength.toNat
  if buffer.length < total then throw (.unexpectedEnd buffer.length)
  addRecords buffer.length total primaryLength (buffer.drop primaryLength) (.ofPrimary primary)

/-- The header records at the start of a file, and what follows them. -/
def readFrom (file : List UInt8) : Except ParseError (SegmentHeader × List UInt8) := do
  if file.length < primaryLength then throw (.read .short)
  let primary ← PrimaryHeader.ofBytes (file.take primaryLength)
  let total := primary.headerLength.toNat
  if file.length < total then throw (.read .short)
  let header ← ofBytes (file.take total)
  return (header, file.drop total)

/-- The data field, from the bytes that follow the header records. -/
def readDataField (h : SegmentHeader) (rest : List UInt8) : Except ParseError (List UInt8) :=
  let declared := h.primary.dataBits.toNat
  let length := h.primary.dataBytes
  match h.imageStructure with
  | some s =>
      if s.dataBits < declared then .error (.dataFieldTooLong declared s.dataBits)
      else if rest.length < length then .error (.unexpectedEnd rest.length)
      else .ok (rest.take length)
  | none =>
      if rest.length < length then .error (.unexpectedEnd rest.length)
      else .ok (rest.take length)

/-- The header records and the data field of a file. -/
def readFile (file : List UInt8) : Except ParseError (SegmentHeader × List UInt8) := do
  let (header, rest) ← readFrom file
  let data ← header.readDataField rest
  return (header, data)

end SegmentHeader

end SeviriImagery
