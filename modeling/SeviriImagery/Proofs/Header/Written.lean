import SeviriImagery.Proofs.Header.Grammar
import SeviriImagery.Proofs.Outcome
import SeviriImagery.Proofs.Text.Utf8

/-!
# Files written and read

A file is written with a primary header that declares the true length of its records and the bits
of its data field.  `SegmentHeader.readFile_fileBytes` reads such a file back: the header is the
meaning of the records that were written, and the data field is the one that was written.

Of the records that the library writes each is the written form of what it was made of; of the
name of a projection only that is left which fits into its field.
-/

namespace SeviriImagery

open HeaderRecord

/-- An image structure as a record. -/
def ImageStructure.record (s : ImageStructure) : HeaderRecord :=
  ⟨1, s.bitsPerPixel :: Word.bytes16 s.columns ++ Word.bytes16 s.lines ++ [s.compression]⟩

/-- An image navigation as a record. -/
def ImageNavigation.record (n : ImageNavigation) : HeaderRecord :=
  ⟨2, blankPadded projectionLength n.projection ++ Word.bytesSigned32 n.columnFactor ++
    Word.bytesSigned32 n.lineFactor ++ Word.bytesSigned32 n.columnOffset ++
    Word.bytesSigned32 n.lineOffset⟩

/-- A text as an annotation record. -/
def annotationRecord (text : String) : HeaderRecord := ⟨4, Text.encode text⟩

/-- A time stamp as a record. -/
def TimeStamp.record (s : TimeStamp) : HeaderRecord :=
  ⟨5, timeCodePreamble :: Word.bytes16 s.days ++ Word.bytes32 s.millis⟩

/-- A segment identification as a record. -/
def SegmentIdentification.record (s : SegmentIdentification) : HeaderRecord :=
  ⟨128, Word.bytes16 s.spacecraft ++ s.channel :: Word.bytes16 s.sequence ++
    Word.bytes16 s.plannedStart ++ Word.bytes16 s.plannedEnd ++ [s.dataFormat]⟩

/-- A projection name as it comes back from its field. -/
def fieldText (text : String) : String := textField (blankPadded projectionLength text)

/-- A text is cut or filled up to the width of its field. -/
theorem length_blankPadded (width : Nat) (text : String) :
    (blankPadded width text).length = width := by
  unfold blankPadded
  simp only [List.length_append, List.length_replicate, List.length_take]
  omega

/-- A record of a known kind is well formed if it has its fields and its length fits a word. -/
theorem HeaderRecord.wellFormed_of_kind {r : HeaderRecord} (kind : RecordKind)
    (hkind : r.kind = kind.number) (hleast : kind.leastLength ≤ r.length)
    (hfits : r.length < 65536) : r.WellFormed := by
  have hnumber : ∀ k : RecordKind, kind ≠ k → r.kind ≠ k.number := by
    intro k hk hsame
    rw [hkind] at hsame
    revert hk hsame
    cases kind <;> cases k <;> decide
  refine ⟨?_, hfits, ?_, ?_, ?_, ?_⟩
  · rw [hkind]
    cases kind <;> decide
  · intro hone
    by_cases hsame : kind = .imageStructure
    · rwa [hsame] at hleast
    · exact absurd hone (hnumber _ hsame)
  · intro htwo
    by_cases hsame : kind = .imageNavigation
    · rwa [hsame] at hleast
    · exact absurd htwo (hnumber _ hsame)
  · intro hfive
    by_cases hsame : kind = .timeStamp
    · rwa [hsame] at hleast
    · exact absurd hfive (hnumber _ hsame)
  · intro hlast
    by_cases hsame : kind = .segmentIdentification
    · rwa [hsame] at hleast
    · exact absurd hlast (hnumber _ hsame)

theorem Text.length_encode (text : String) : (encode text).length = text.utf8ByteSize := by
  rw [encode, toList_eq_data, Array.length_toList]
  rfl

theorem ImageStructure.length_record (s : ImageStructure) : s.record.length = 9 := rfl

/-- The record of a navigation has a fixed length. -/
theorem ImageNavigation.length_record (n : ImageNavigation) : n.record.length = 51 := by
  simp only [HeaderRecord.length, ImageNavigation.record, List.length_append, length_blankPadded]
  rfl

/-- The record of an annotation grows with the text. -/
theorem length_annotationRecord (text : String) :
    (annotationRecord text).length = text.utf8ByteSize + 3 := by
  rw [← Text.length_encode]
  rfl

theorem TimeStamp.length_record (s : TimeStamp) : s.record.length = 10 := rfl

theorem SegmentIdentification.length_record (s : SegmentIdentification) : s.record.length = 13 := rfl

/-- An image structure is read where it was written. -/
theorem ImageStructure.ofBody_record (s : ImageStructure) :
    ImageStructure.ofBody s.record.body = s := by
  have hcolumns : Word.uint16 s.record.body 1 = s.columns :=
    Word.uint16_of_drop (Word.bytes16 s.lines ++ [s.compression]) rfl
  have hlines : Word.uint16 s.record.body 3 = s.lines := Word.uint16_of_drop [s.compression] rfl
  rw [ImageStructure.ofBody, hcolumns, hlines]
  rfl

/-- A time stamp is read where it was written. -/
theorem TimeStamp.ofBody_record (s : TimeStamp) : TimeStamp.ofBody s.record.body = s := by
  have hdays : Word.uint16 s.record.body 1 = s.days := Word.uint16_of_drop (Word.bytes32 s.millis) rfl
  have hmillis : Word.uint32 s.record.body 3 = s.millis := Word.uint32_of_drop [] rfl
  rw [TimeStamp.ofBody, hdays, hmillis]

/-- A segment identification is read where it was written. -/
theorem SegmentIdentification.ofBody_record (s : SegmentIdentification) :
    SegmentIdentification.ofBody s.record.body = s := by
  have hspacecraft : Word.uint16 s.record.body 0 = s.spacecraft :=
    Word.uint16_of_drop (s.channel :: Word.bytes16 s.sequence ++ Word.bytes16 s.plannedStart ++
      Word.bytes16 s.plannedEnd ++ [s.dataFormat]) rfl
  have hsequence : Word.uint16 s.record.body 3 = s.sequence :=
    Word.uint16_of_drop (Word.bytes16 s.plannedStart ++ Word.bytes16 s.plannedEnd ++
      [s.dataFormat]) rfl
  have hstart : Word.uint16 s.record.body 5 = s.plannedStart :=
    Word.uint16_of_drop (Word.bytes16 s.plannedEnd ++ [s.dataFormat]) rfl
  have hend : Word.uint16 s.record.body 7 = s.plannedEnd := Word.uint16_of_drop [s.dataFormat] rfl
  rw [SegmentIdentification.ofBody, hspacecraft, hsequence, hstart, hend]
  rfl

/-- A navigation is read where it was written, its projection as the field holds it. -/
theorem ImageNavigation.ofBody_record (n : ImageNavigation) :
    ImageNavigation.ofBody n.record.body = { n with projection := fieldText n.projection } := by
  have hname := length_blankPadded projectionLength n.projection
  have hdrop : ∀ rest : List UInt8, ∀ k,
      (blankPadded projectionLength n.projection ++ rest).drop (projectionLength + k) =
        rest.drop k := by
    intro rest k
    rw [← List.drop_drop, List.drop_left' hname]
  have hbody : n.record.body = blankPadded projectionLength n.projection ++
      (Word.bytesSigned32 n.columnFactor ++ (Word.bytesSigned32 n.lineFactor ++
        (Word.bytesSigned32 n.columnOffset ++ Word.bytesSigned32 n.lineOffset))) := by
    simp only [ImageNavigation.record, List.append_assoc]
  have hprojection : n.record.body.take projectionLength =
      blankPadded projectionLength n.projection := by
    rw [hbody, List.take_left' hname]
  have hcolumnFactor : Word.int32 n.record.body projectionLength = n.columnFactor := by
    refine Word.int32_of_drop (Word.bytesSigned32 n.lineFactor ++
      (Word.bytesSigned32 n.columnOffset ++ Word.bytesSigned32 n.lineOffset)) ?_
    rw [hbody]
    exact hdrop _ 0
  have hlineFactor : Word.int32 n.record.body (projectionLength + 4) = n.lineFactor := by
    refine Word.int32_of_drop (Word.bytesSigned32 n.columnOffset ++
      Word.bytesSigned32 n.lineOffset) ?_
    rw [hbody, hdrop]
    rfl
  have hcolumnOffset : Word.int32 n.record.body (projectionLength + 8) = n.columnOffset := by
    refine Word.int32_of_drop (Word.bytesSigned32 n.lineOffset) ?_
    rw [hbody, hdrop]
    rfl
  have hlineOffset : Word.int32 n.record.body (projectionLength + 12) = n.lineOffset := by
    refine Word.int32_of_drop [] ?_
    rw [hbody, hdrop]
    rfl
  rw [ImageNavigation.ofBody, hprojection, hcolumnFactor, hlineFactor, hcolumnOffset, hlineOffset,
    fieldText]

namespace SegmentHeader

/-- A header that stands written at the start of a file is read, and what follows it is left. -/
theorem readFrom_of_written (primary : PrimaryHeader) {records : List HeaderRecord}
    (hwf : ∀ r ∈ records, r.WellFormed)
    (htotal : primary.headerLength.toNat = primaryLength + (records.flatMap bytes).length)
    (hlimit : primary.headerLength.toNat ≤ headerLimit) (rest : List UInt8) :
    readFrom (primary.bytes ++ records.flatMap bytes ++ rest) =
      .ok (ofRecords primary records, rest) := by
  have hlength : (primary.bytes ++ records.flatMap bytes).length = primary.headerLength.toNat := by
    rw [htotal, List.length_append, PrimaryHeader.length_bytes]
  have hfront : (primary.bytes ++ records.flatMap bytes ++ rest).take primaryLength =
      primary.bytes ++ [] := by
    rw [List.append_assoc, List.append_nil, List.take_left' (PrimaryHeader.length_bytes primary)]
  have hwritten : IsWritten (primary.bytes ++ records.flatMap bytes) primary records :=
    ⟨⟨[], by rw [List.append_nil]⟩, htotal, hlimit, hwf⟩
  have hshort : ¬(primary.bytes ++ records.flatMap bytes ++ rest).length < primaryLength := by
    rw [List.length_append, hlength, htotal]
    omega
  have hlong : ¬(primary.bytes ++ records.flatMap bytes ++ rest).length <
      primary.headerLength.toNat := by
    rw [List.length_append, hlength]
    omega
  have hprimary := PrimaryHeader.ofBytes_bytes (p := primary) (by omega) hlimit []
  rw [readFrom, if_neg hshort]
  simp only [hfront, hprimary, Outcome.ok_bind, if_neg hlong, List.take_left' hlength,
    List.drop_left' hlength, ofBytes_of_isWritten hwritten]
  rfl

/-- A data field is taken as it is, if it has the length declared and that is not too long for the
image. -/
theorem readDataField_of_length {h : SegmentHeader} {data : List UInt8}
    (hdata : data.length = h.primary.dataBytes)
    (hroom : ∀ s, h.imageStructure = some s → h.primary.dataBits.toNat ≤ s.dataBits) :
    h.readDataField data = .ok data := by
  unfold readDataField
  cases hstructure : h.imageStructure with
  | none =>
      simp only [← hdata, Nat.lt_irrefl, if_false, List.take_length]
  | some s =>
      simp only [← hdata, Nat.lt_irrefl, if_false, List.take_length,
        if_neg (Nat.not_lt.mpr (hroom s hstructure))]

/-- **What was written is read.**  A file of well-formed records and a data field of the length
declared gives the header that the records mean, and the data field. -/
theorem readFile_fileBytes {fileType : UInt8} {records : List HeaderRecord} {data : List UInt8}
    {dataBits : Nat} (hwf : ∀ r ∈ records, r.WellFormed)
    (hlimit : primaryLength + (records.flatMap bytes).length ≤ headerLimit)
    (hbits : dataBits < 2 ^ 64) (hdata : data.length = (dataBits + 7) / 8)
    (hroom : ∀ body, lastBody records 1 = some body →
      dataBits ≤ (ImageStructure.ofBody body).dataBits) :
    readFile (fileBytes fileType (records.flatMap bytes) data dataBits) =
      .ok (ofRecords ⟨fileType, .ofNat (primaryLength + (records.flatMap bytes).length),
        .ofNat dataBits⟩ records, data) := by
  have hdeclared : (UInt64.ofNat dataBits).toNat = dataBits := by
    rw [UInt64.toNat_ofNat', Nat.mod_eq_of_lt hbits]
  have htotal : (UInt32.ofNat (primaryLength + (records.flatMap bytes).length)).toNat =
      primaryLength + (records.flatMap bytes).length := by
    rw [UInt32.toNat_ofNat', Nat.mod_eq_of_lt (Nat.lt_of_le_of_lt hlimit (by decide))]
  have hfrom := readFrom_of_written ⟨fileType,
    .ofNat (primaryLength + (records.flatMap bytes).length), .ofNat dataBits⟩ hwf htotal
      (by rw [htotal]; exact hlimit) data
  rw [readFile, fileBytes]
  simp only [hfrom, Outcome.ok_bind]
  rw [readDataField_of_length]
  · rfl
  · rw [hdata, PrimaryHeader.dataBytes, ofRecords, hdeclared]
  · intro s hs
    obtain ⟨body, hbody, rfl⟩ := Option.map_eq_some_iff.mp hs
    rw [ofRecords, hdeclared]
    exact hroom body hbody

end SegmentHeader

end SeviriImagery
