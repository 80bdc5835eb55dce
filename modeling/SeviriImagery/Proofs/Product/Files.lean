import SeviriImagery.Product.Layout
import SeviriImagery.Proofs.Header.Written
import SeviriImagery.Proofs.Packing
import SeviriImagery.Proofs.Product.Name
import SeviriImagery.Proofs.Prologue
import SeviriImagery.Segment.File

/-!
# What the files of a product hold

A product is written file by file from its layout.  Here each file is read back by itself.  The
header of a segment says what the layout says (`ProductLayout.Describes`), and its data field
unpacks to the samples, as far as their bits were kept (`ProductLayout.segmentFile_spec`).  A
prologue comes back with its time as the code of the time has it
(`ProductLayout.prologueFile_spec`).
-/

namespace SeviriImagery

namespace ProductLayout

variable {l : ProductLayout} {sequence : UInt16} {samples : Array Nat} {file : NewFile}

/-- The records of a segment. -/
def records (l : ProductLayout) (sequence : UInt16) (stamp : TimeStamp) : List HeaderRecord :=
  [l.imageStructure.record, l.navigation.record,
    annotationRecord (l.name.segmentName sequence.toNat), stamp.record,
    (l.identification sequence).record]

/-- The records of a segment, byte for byte, are what is written behind its first header. -/
theorem flatMap_records (l : ProductLayout) (sequence : UInt16) (stamp : TimeStamp) :
    (l.records sequence stamp).flatMap HeaderRecord.bytes = l.segmentRecords sequence stamp := by
  simp only [records, List.flatMap_cons, List.flatMap_nil, List.append_nil]
  rfl

/-- The records have fixed lengths, but for the one that holds the name of the file. -/
theorem length_segmentRecords (hcheck : l.name.check = .ok ()) (sequence : UInt16)
    (stamp : TimeStamp) : (l.segmentRecords sequence stamp).length = 86 + l.name.memberSize := by
  have hname : (l.name.segmentName sequence.toNat).utf8ByteSize = l.name.memberSize :=
    ProductName.utf8ByteSize_memberName hcheck (.segment sequence)
  rw [← flatMap_records, records]
  simp only [List.flatMap_cons, List.flatMap_nil, List.length_append, HeaderRecord.length_bytes,
    ImageStructure.length_record, ImageNavigation.length_record, length_annotationRecord,
    TimeStamp.length_record, SegmentIdentification.length_record, List.length_nil]
  omega

/-- Each record of a segment is one that is read back. -/
theorem wellFormed_records (hcheck : l.name.check = .ok ()) (sequence : UInt16) (stamp : TimeStamp) :
    ∀ r ∈ l.records sequence stamp, r.WellFormed := by
  have hname : (l.name.segmentName sequence.toNat).utf8ByteSize = l.name.memberSize :=
    ProductName.utf8ByteSize_memberName hcheck (.segment sequence)
  have hshort := ProductName.memberSize_le hcheck
  have hannotation := length_annotationRecord (l.name.segmentName sequence.toNat)
  have hleast : RecordKind.annotationText.leastLength = 3 := rfl
  intro r hr
  simp only [records, List.mem_cons, List.not_mem_nil, or_false] at hr
  rcases hr with rfl | rfl | rfl | rfl | rfl
  · have hlength := l.imageStructure.length_record
    exact HeaderRecord.wellFormed_of_kind .imageStructure rfl (Nat.le_of_eq hlength.symm) (by omega)
  · have hlength := l.navigation.length_record
    exact HeaderRecord.wellFormed_of_kind .imageNavigation rfl (Nat.le_of_eq hlength.symm) (by omega)
  · exact HeaderRecord.wellFormed_of_kind .annotationText rfl (by omega) (by omega)
  · have hlength := stamp.length_record
    exact HeaderRecord.wellFormed_of_kind .timeStamp rfl (Nat.le_of_eq hlength.symm) (by omega)
  · have hlength := (l.identification sequence).length_record
    exact HeaderRecord.wellFormed_of_kind .segmentIdentification rfl (Nat.le_of_eq hlength.symm)
      (by omega)

/-- The navigation of a segment as it is read back. -/
def readNavigation (l : ProductLayout) : ImageNavigation :=
  { l.navigation with projection := fieldText l.projection }

/-- A header says what a layout says of a segment. -/
structure Describes (l : ProductLayout) (sequence : UInt16) (h : SegmentHeader) : Prop where
  fileType : h.primary.fileType = imageFile
  imageStructure : h.imageStructure = some l.imageStructure
  navigation : h.navigation = some l.readNavigation
  identification : h.identification = some (l.identification sequence)

/-- A header that holds these records describes the segment. -/
theorem describes_ofRecords (l : ProductLayout) (sequence : UInt16) (stamp : TimeStamp)
    {primary : PrimaryHeader} (htype : primary.fileType = imageFile) :
    l.Describes sequence (SegmentHeader.ofRecords primary (l.records sequence stamp)) where
  fileType := htype
  imageStructure := congrArg some l.imageStructure.ofBody_record
  navigation := congrArg some l.navigation.ofBody_record
  identification := congrArg some (l.identification sequence).ofBody_record

/-- Bytes that are read as a segment of a product with some samples, each cut to the bit depth. -/
def HoldsSegment (l : ProductLayout) (sequence : UInt16) (samples : Array Nat)
    (bytes : List UInt8) : Prop :=
  ∃ header data, SegmentHeader.readFile bytes = .ok (header, data) ∧ l.Describes sequence header ∧
    Packing.unpack data l.bitsPerPixel.toNat l.segmentPixels =
      .ok (samples.map (· % 2 ^ l.bitsPerPixel.toNat))

/-- **A segment that is written is read back.** -/
theorem segmentFile_spec (hcheck : l.name.check = .ok ())
    (hdepth : 1 ≤ l.bitsPerPixel.toNat ∧ l.bitsPerPixel.toNat ≤ 16)
    (hfile : l.segmentFile sequence samples = .ok file) :
    file.path = l.path (l.name.memberName (.segment sequence)) ∧
      l.HoldsSegment sequence samples file.bytes := by
  unfold segmentFile at hfile
  by_cases hsize : samples.size = l.segmentPixels
  · rw [if_neg (not_not.mpr hsize)] at hfile
    obtain ⟨code, -, hfile⟩ := Outcome.bind_eq_ok_iff.mp hfile
    simp only [pure, Except.pure, Except.ok.injEq] at hfile
    subst hfile
    constructor
    · simp only [ProductName.memberName_segment]
    have hcolumns := l.segmentColumns.toNat_lt
    have hlines := l.segmentLines.toNat_lt
    have hpixels : l.segmentPixels < 2 ^ 16 * 2 ^ 16 := Nat.mul_lt_mul'' hcolumns hlines
    have hbits : samples.size * l.bitsPerPixel.toNat < 2 ^ 64 := by
      have hmost : samples.size * l.bitsPerPixel.toNat ≤ l.segmentPixels * 16 := by
        rw [hsize]
        exact Nat.mul_le_mul_left _ hdepth.2
      omega
    obtain ⟨hdata, -⟩ := Packing.ofBytes_pack samples hdepth.2
    have hheader := length_segmentRecords hcheck sequence ⟨.ofNat code.days, .ofNat code.millis⟩
    have hshort := ProductName.memberSize_le hcheck
    have hunpack := Packing.unpack_pack hbits hdepth
    rw [hsize] at hunpack
    have hroom : ∀ body, HeaderRecord.lastBody (l.records sequence
        ⟨.ofNat code.days, .ofNat code.millis⟩) 1 = some body →
          samples.size * l.bitsPerPixel.toNat ≤ (ImageStructure.ofBody body).dataBits := by
      intro body hbody
      have hstructure : HeaderRecord.lastBody (l.records sequence
          ⟨.ofNat code.days, .ofNat code.millis⟩) 1 = some l.imageStructure.record.body := rfl
      rw [hstructure] at hbody
      cases hbody
      rw [ImageStructure.ofBody_record, hsize]
      exact Nat.le_refl _
    rw [← flatMap_records] at hheader
    have hlimit : primaryLength + ((l.records sequence
        ⟨.ofNat code.days, .ofNat code.millis⟩).flatMap HeaderRecord.bytes).length ≤ headerLimit := by
      rw [hheader, primaryLength, headerLimit]
      omega
    have hread := @SegmentHeader.readFile_fileBytes imageFile _ _ _
      (wellFormed_records hcheck sequence _) hlimit hbits hdata hroom
    rw [flatMap_records] at hread
    exact ⟨_, _, hread, describes_ofRecords l sequence _ rfl, hunpack⟩
  · rw [if_pos hsize] at hfile
    cases hfile

end ProductLayout

/-- Bytes that are read as a prologue. -/
def Prologue.StandsIn (p : Prologue) (bytes : List UInt8) : Prop :=
  ∃ header data, SegmentHeader.readFile bytes = .ok (header, data) ∧
    header.primary.fileType = prologueFile ∧ Prologue.ofDataField data = .ok p

/-- A prologue as it is read back: at a certain time, and with the radiometry of its satellite. -/
def Prologue.readAt (p : Prologue) (read : UtcTime) : Prologue :=
  { p with acquired := read, radiometry := ⟨p.satellite, p.radiometry.gains⟩ }

/-- **A prologue that is written is read back**, with its own time if that is not before the
epoch. -/
theorem ProductLayout.prologueFile_spec {l : ProductLayout} {p : Prologue} {file : NewFile}
    (hfile : l.prologueFile p = .ok file) :
    file.path = l.path (l.name.memberName .prologue) ∧
      ∃ read, (p.readAt read).StandsIn file.bytes ∧
        (epochYear ≤ p.acquired.year → read = p.acquired) := by
  obtain ⟨data, hdata, hfile⟩ := Outcome.bind_eq_ok_iff.mp hfile
  rw [Outcome.mapError_eq_ok_iff] at hdata
  simp only [pure, Except.pure, Except.ok.injEq] at hfile
  subst hfile
  obtain ⟨hlength, code, read, hcode, hread, hback⟩ := Prologue.ofDataField_of_toDataField hdata
  refine ⟨by simp only [ProductName.memberName_prologue], read, ?_, ?_⟩
  · have hsize : Prologue.length = 387257 := rfl
    have hnone : ∀ body, HeaderRecord.lastBody [] 1 = some body →
        data.length * 8 ≤ (ImageStructure.ofBody body).dataBits := by
      intro body hbody
      cases hbody
    have hwritten := @SegmentHeader.readFile_fileBytes SeviriImagery.prologueFile [] data
      (data.length * 8) (fun r hr => by cases hr) (by decide) (by omega) (by omega) hnone
    rw [List.flatMap_nil] at hwritten
    exact ⟨_, data, hwritten, rfl, hback⟩
  · intro hyear
    rw [UtcTime.ofCode_of_toCode hyear hcode] at hread
    exact (Except.ok.inj hread).symm

end SeviriImagery
