import SeviriImagery.Proofs.Frame.Addressing
import SeviriImagery.Proofs.Frame.Reading
import SeviriImagery.Proofs.Header.Stream
import SeviriImagery.Proofs.Packing.Cursor
import SeviriImagery.Segment.File

/-!
# Which files are segments

A file is read as a segment by a chain of checks: of its header, of the length that it declares, of
what it says of the image, of the shape, and of the bytes behind the header.  `HoldsSegment` is what
they come to together.  A file that holds a segment of the shape expected is loaded, with a sample
for every pixel and each of them the number of its bits, and no other file is
(`FileTree.readSamples_eq_ok_iff`); so whatever place of a frame is looked up in a segment that was
loaded, it is there.
-/

namespace SeviriImagery

/-- The samples that a header describes can be counted, for its words are short. -/
theorem ImageStructure.pixels_lt (s : ImageStructure) : s.shape.pixels < 2 ^ 16 * 2 ^ 16 :=
  Nat.mul_lt_mul'' s.columns.toNat_lt s.lines.toNat_lt

/-- So can their bits. -/
theorem ImageStructure.bits_lt (s : ImageStructure) :
    s.shape.pixels * s.shape.bitsPerPixel < Size.limit :=
  Nat.lt_trans (Nat.mul_lt_mul'' s.pixels_lt s.bitsPerPixel.toNat_lt) (by decide)

namespace SegmentHeader

/-- A header that describes image data which can be read. -/
structure DescribesImage (h : SegmentHeader) (image : ImageStructure) : Prop where
  fileType : h.primary.fileType = imageFile
  formatted : ∃ s, h.identification = some s ∧ s.dataFormat ≠ 0
  structured : h.imageStructure = some image
  uncompressed : image.compression = 0
  depth : 1 ≤ image.bitsPerPixel.toNat ∧ image.bitsPerPixel.toNat ≤ 16
  navigated : ∃ n, h.navigation = some n

/-- A header with `available` bytes behind it that hold a segment of a shape: they are there as far
as the header declares, which is no further than to the last sample, and no less. -/
structure HoldsSegment (h : SegmentHeader) (shape : SegmentShape) (available : Nat) : Prop where
  image : ∃ image, h.DescribesImage image ∧ image.shape = shape
  declared : h.primary.dataBits.toNat ≤ shape.columns * shape.lines * shape.bitsPerPixel
  complete : (h.primary.dataBits.toNat + 7) / 8 =
    (shape.columns * shape.lines * shape.bitsPerPixel + 7) / 8
  available : (h.primary.dataBits.toNat + 7) / 8 ≤ available

variable {h : SegmentHeader} {data : List UInt8} {shape : SegmentShape} {samples : Array Nat}

/-- A record that is required is there. -/
theorem require_eq_ok_iff {α : Type} {record : Option α} {e : ParseError} {a : α} :
    (record.elim (.error e) .ok : Except ParseError α) = .ok a ↔ record = some a := by
  cases record <;> simp

/-- Samples of one to sixteen bits are read. -/
theorem depthIsReadable_iff {bits : Nat} : depthIsReadable bits = true ↔ 1 ≤ bits ∧ bits ≤ 16 := by
  simp [depthIsReadable]

/-- The checks of a header let it pass if it describes image data that can be read. -/
theorem checkImageData_eq_ok_iff : h.checkImageData = .ok () ↔ ∃ image, h.DescribesImage image := by
  unfold checkImageData requireIdentification requireStructure requireNavigation
  simp only [Outcome.guard_eq_ok_iff, Outcome.bind_eq_ok_iff, Outcome.mapError_eq_ok_iff,
    require_eq_ok_iff, Bool.not_eq_true', Bool.not_eq_false, depthIsReadable_iff, not_not]
  constructor
  · intro hchecks
    obtain ⟨htype, s, hs, hformat, image, himage, hplain, hdepth, n, hn, -⟩ := hchecks
    refine ⟨image, htype, ⟨s, hs, ?_⟩, himage, hplain, hdepth, n, hn⟩
    simpa [SegmentIdentification.isBinaryDump] using hformat
  · intro hgiven
    obtain ⟨image, htype, ⟨s, hs, hformat⟩, himage, hplain, hdepth, n, hn⟩ := hgiven
    refine ⟨htype, s, hs, ?_, image, himage, hplain, hdepth, n, hn, rfl⟩
    simpa [SegmentIdentification.isBinaryDump] using hformat

/-- Samples come from a header that describes image data of the shape expected, and from a data
field that can be unpacked. -/
theorem samples_eq_ok_iff :
    h.samples data shape = .ok samples ↔
      (∃ image, h.DescribesImage image ∧ image.shape = shape) ∧
        Packing.unpack data shape.bitsPerPixel shape.pixels = .ok samples := by
  unfold SegmentHeader.samples requireStructure
  simp only [Outcome.guard_eq_ok_iff, Outcome.bind_eq_ok_iff, Outcome.mapError_eq_ok_iff,
    require_eq_ok_iff, not_not]
  constructor
  · intro hgiven
    obtain ⟨⟨⟩, hcheck, image, himage, rfl, hunpack⟩ := hgiven
    obtain ⟨same, hsame⟩ := checkImageData_eq_ok_iff.mp hcheck
    have hone : same = image := by
      rw [hsame.structured] at himage
      cases himage
      rfl
    exact ⟨⟨image, hone ▸ hsame, rfl⟩, hunpack⟩
  · intro hgiven
    obtain ⟨⟨image, himage, rfl⟩, hunpack⟩ := hgiven
    exact ⟨(), checkImageData_eq_ok_iff.mpr ⟨image, himage⟩, image, himage.structured, rfl, hunpack⟩

/-- Samples come from a data field of the bytes declared if these hold a segment. -/
theorem samples_of_readFile_iff {file : List UInt8} :
    (∃ data, readFile file = .ok (h, data) ∧ h.samples data shape = .ok samples) ↔
      ofBytes file = .ok h ∧
        h.HoldsSegment shape (file.drop h.primary.headerLength.toNat).length ∧
        samples = Array.ofFn (n := shape.columns * shape.lines) fun i =>
          Packing.bitNumber ((file.drop h.primary.headerLength.toNat).take h.primary.dataBytes)
            (i * shape.bitsPerPixel) shape.bitsPerPixel := by
  generalize hbehind : file.drop h.primary.headerLength.toNat = behind
  simp only [readFile_eq_ok_iff, samples_eq_ok_iff, hbehind]
  constructor
  · intro hgiven
    obtain ⟨data, ⟨hheader, hroom, hthere, rfl⟩, ⟨image, himage, rfl⟩, hunpack⟩ := hgiven
    obtain ⟨-, hbits, hsamples⟩ := (Packing.unpack_eq_ok_iff image.bits_lt).mp hunpack
    have hdeclared : h.primary.dataBits.toNat ≤
        image.shape.columns * image.shape.lines * image.shape.bitsPerPixel :=
      hroom image himage.structured
    rw [List.length_take, Nat.min_eq_left hthere] at hbits
    refine ⟨hheader, ⟨⟨image, himage, rfl⟩, hdeclared, ?_, hthere⟩, hsamples⟩
    -- no more bits are declared than the samples have, and no fewer bytes than these need
    unfold PrimaryHeader.dataBytes SegmentShape.pixels at hbits
    omega
  · intro hgiven
    obtain ⟨hheader, ⟨⟨image, himage, rfl⟩, hdeclared, hcomplete, hthere⟩, hsamples⟩ := hgiven
    refine ⟨_, ⟨hheader, ?_, hthere, rfl⟩, ⟨image, himage, rfl⟩,
      (Packing.unpack_eq_ok_iff image.bits_lt).mpr ⟨himage.depth, ?_, hsamples⟩⟩
    · intro s hs
      rw [himage.structured] at hs
      cases hs
      exact hdeclared
    · rw [List.length_take, PrimaryHeader.dataBytes, Nat.min_eq_left hthere, SegmentShape.pixels]
      omega

end SegmentHeader

variable {t : FileTree} {path : String} {shape : SegmentShape} {samples : Array Nat}

namespace FileTree

/-- Bytes are read of a file that is found. -/
theorem readBytes_eq_ok_iff {file : List UInt8} :
    t.readBytes path = .ok file ↔ t.find path = .ok (.file file) := by
  unfold readBytes
  split <;> simp_all

/-- **A file is loaded as a segment exactly if it holds one.**  The samples are the numbers of the
bits behind its header. -/
theorem readSamples_eq_ok_iff :
    t.readSamples path shape = .ok samples ↔
      ∃ file h, t.find path = .ok (.file file) ∧ SegmentHeader.ofBytes file = .ok h ∧
        h.HoldsSegment shape (file.drop h.primary.headerLength.toNat).length ∧
        samples = Array.ofFn (n := shape.columns * shape.lines) fun i =>
          Packing.bitNumber ((file.drop h.primary.headerLength.toNat).take h.primary.dataBytes)
            (i * shape.bitsPerPixel) shape.bitsPerPixel := by
  unfold readSamples headerAndData
  simp only [Outcome.bind_eq_ok_iff, Outcome.inFile_eq_ok_iff, Outcome.mapError_eq_ok_iff,
    readBytes_eq_ok_iff, Prod.exists, ← SegmentHeader.samples_of_readFile_iff]
  constructor
  · intro hgiven
    obtain ⟨h, data, ⟨file, hfile, hread⟩, hsamples⟩ := hgiven
    exact ⟨file, h, hfile, data, hread, hsamples⟩
  · intro hgiven
    obtain ⟨file, h, hfile, data, hread, hsamples⟩ := hgiven
    exact ⟨h, data, ⟨file, hfile, hread⟩, hsamples⟩

/-- A file that is not loaded is named. -/
theorem readSamples_names (t : FileTree) (path : String) (shape : SegmentShape) :
    Outcome.FailsOnly (fun e => ∃ cause, e = .file path cause) (t.readSamples path shape) := by
  have hin : ∀ {α : Type} (outcome : Except ContentError α),
      Outcome.FailsOnly (fun e => ∃ cause, e = .file path cause) (inFile path outcome) := by
    intro α outcome
    cases outcome with
    | ok a => exact Outcome.failsOnly_ok a
    | error e => exact Outcome.failsOnly_error ⟨_, rfl⟩
  have hbytes : Outcome.FailsOnly (fun e => ∃ cause, e = .file path cause) (t.readBytes path) := by
    unfold readBytes
    split
    · exact Outcome.failsOnly_error ⟨_, rfl⟩
    · exact Outcome.failsOnly_error ⟨_, rfl⟩
    · exact Outcome.failsOnly_ok _
  exact .bind (.bind hbytes fun _ _ => hin _) fun _ _ => hin _

end FileTree

namespace SegmentSource

open HeaderRecord

/-- A place of a frame is a place in its segments, however many of them there are. -/
theorem offset_lt {f : Frame} {x y : Nat} {a : SampleAddress} (image : ImageStructure)
    (hcolumns : f.segmentColumns = image.shape.columns) (hlines : f.segmentLines = image.shape.lines)
    (hresolve : f.resolve x y = some a) : a.offset < image.shape.columns * image.shape.lines := by
  have hpixels : f.segmentPixels = image.shape.columns * image.shape.lines := by
    rw [Frame.segmentPixels, hcolumns, hlines]
    exact Size.mul_of_lt (Nat.lt_trans image.pixels_lt (by decide))
  unfold Frame.resolve at hresolve
  split at hresolve
  · rename_i hsample
    cases hresolve
    obtain ⟨-, hy, hfirst, hlast⟩ := Frame.hasSample_iff.mp hsample
    have hstrip : 0 < f.segmentColumns := by omega
    have hline : 0 < f.segmentLines := by
      have hmost := Nat.lt_of_lt_of_le hy (Size.mul_le f.segmentLines f.segments)
      exact Nat.pos_of_mul_pos_right (Nat.zero_lt_of_lt hmost)
    rw [← hpixels]
    refine Nat.mod_lt _ ?_
    rw [hpixels, ← hcolumns, ← hlines]
    exact Nat.mul_pos hstrip hline
  · cases hresolve

/-- A slot with a path is loaded from the file there. -/
theorem load_ofFiles (t : FileTree) (shape : SegmentShape) {paths : List (Option String)}
    {index : Nat} (hpath : paths[index]? = some (some path)) :
    (ofFiles t paths shape).offers index = true ∧
      (ofFiles t paths shape).load index = t.readSamples path shape := by
  have hindex : index < paths.length := (List.getElem?_eq_some_iff.mp hpath).1
  have hslot : paths[index]?.getD none = some path := by rw [hpath, Option.getD_some]
  constructor
  · simp only [offers, ofFiles, hslot, hindex, decide_true, Option.isSome_some, Bool.and_self]
  · simp only [ofFiles, hslot]

/-- A slot without one is not loaded. -/
theorem load_ofFiles_unavailable {paths : List (Option String)} {index : Nat}
    (hnone : ¬∃ path, paths[index]? = some (some path)) :
    (ofFiles t paths shape).offers index = false ∧
      (ofFiles t paths shape).load index = .error (.value (.segmentUnavailable index)) := by
  have hslot : paths[index]?.getD none = none := by
    cases hfound : paths[index]? with
    | none => rfl
    | some slot =>
        cases slot with
        | none => rfl
        | some path => exact absurd ⟨path, hfound⟩ hnone
  constructor
  · simp only [offers, ofFiles, hslot, Option.isSome_none, Bool.and_false]
  · simp only [ofFiles, hslot]

/-- **Of the files of a product those are loaded that hold a segment of its shape, and no others.**
What is loaded has a sample for each pixel, each of them the number of its bits and no greater than
these allow, so that whatever place a frame of such segments gives can be looked up.  Any other file
is an error that names it; its segment is not taken for one that is absent.  A segment without a
file is an error as well, if it is asked for all the same. -/
theorem ofFiles_loads_segments (t : FileTree) (paths : List (Option String)) (shape : SegmentShape)
    (index : Nat) :
    (∀ path, paths[index]? = some (some path) →
      (∀ samples, (ofFiles t paths shape).load index = .ok samples ↔
        ∃ file h, t.find path = .ok (.file file) ∧ SegmentHeader.ofBytes file = .ok h ∧
          h.HoldsSegment shape (file.drop h.primary.headerLength.toNat).length ∧
          samples = Array.ofFn (n := shape.columns * shape.lines) fun i =>
            Packing.bitNumber ((file.drop h.primary.headerLength.toNat).take h.primary.dataBytes)
              (i * shape.bitsPerPixel) shape.bitsPerPixel) ∧
      (∀ samples, (ofFiles t paths shape).load index = .ok samples →
        samples.size = shape.columns * shape.lines ∧
        (∀ n ∈ samples, n < 2 ^ shape.bitsPerPixel) ∧
        ∀ (f : Frame) x y a, f.segmentColumns = shape.columns → f.segmentLines = shape.lines →
          f.resolve x y = some a → a.offset < samples.size) ∧
      (∀ e, (ofFiles t paths shape).load index = .error e → ∃ cause, e = .file path cause) ∧
      (ofFiles t paths shape).segment index =
        ((ofFiles t paths shape).load index).map some) ∧
    ((¬∃ path, paths[index]? = some (some path)) →
      (ofFiles t paths shape).load index = .error (.value (.segmentUnavailable index))) := by
  constructor
  · intro path hpath
    obtain ⟨hoffers, hload⟩ := load_ofFiles t shape hpath
    refine ⟨?_, ?_, ?_, ?_⟩
    · intro samples
      rw [hload]
      exact FileTree.readSamples_eq_ok_iff
    · intro samples hsamples
      rw [hload] at hsamples
      obtain ⟨file, h, -, -, hholds, rfl⟩ := FileTree.readSamples_eq_ok_iff.mp hsamples
      refine ⟨Array.size_ofFn, ?_, ?_⟩
      · intro n hn
        obtain ⟨i, rfl⟩ := Array.mem_ofFn.mp hn
        exact Packing.bitNumber_lt _ _ _
      · intro f x y a hcolumns hlines hresolve
        rw [Array.size_ofFn]
        obtain ⟨image, -, rfl⟩ := hholds.image
        exact offset_lt image hcolumns hlines hresolve
    · intro e he
      rw [hload] at he
      exact t.readSamples_names path shape e he
    · rw [segment, if_pos hoffers]
  · intro hnone
    exact (load_ofFiles_unavailable hnone).2

/-- The records of a segment of two pixels with ten bits each. -/
def twoPixelRecords : List HeaderRecord :=
  [⟨1, [10, 0, 2, 0, 1, 0]⟩, ⟨2, List.replicate 48 0x20⟩, ⟨128, [1, 65, 9, 0, 1, 0, 1, 0, 1, 1]⟩]

/-- The primary header in front of them, for a data field of twenty bits. -/
def twoPixelPrimary : PrimaryHeader := ⟨imageFile, 89, 20⟩

/-- A file that begins with them. -/
def twoPixelFile (behind : List UInt8) : List UInt8 :=
  twoPixelPrimary.bytes ++ (twoPixelRecords.flatMap bytes ++ behind)

/-- Files with and without the last byte of the pixels. -/
def twoPixelTree : FileTree :=
  ⟨[(["whole"], .file (twoPixelFile [0xff, 0xc0, 0x10, 0x55])),
    (["cut"], .file (twoPixelFile [0xff, 0xc0]))], []⟩

theorem isWritten_twoPixels (primary : PrimaryHeader) (htotal : primary.headerLength = 89)
    (behind : List UInt8) :
    SegmentHeader.IsWritten (primary.bytes ++ (twoPixelRecords.flatMap bytes ++ behind)) primary
      twoPixelRecords := by
  refine ⟨⟨behind, rfl⟩, by rw [htotal]; decide, by rw [htotal]; decide, ?_⟩
  intro r hr
  simp only [twoPixelRecords, List.mem_cons, List.not_mem_nil, or_false] at hr
  rcases hr with rfl | rfl | rfl
  · exact wellFormed_of_kind .imageStructure rfl (by decide) (by decide)
  · exact wellFormed_of_kind .imageNavigation rfl (by decide) (by decide)
  · exact wellFormed_of_kind .segmentIdentification rfl (by decide) (by decide)

theorem isWritten_twoPixelFile (behind : List UInt8) :
    SegmentHeader.IsWritten (twoPixelFile behind) twoPixelPrimary twoPixelRecords :=
  isWritten_twoPixels twoPixelPrimary rfl behind

theorem describesImage_twoPixel :
    (SegmentHeader.ofRecords twoPixelPrimary twoPixelRecords).DescribesImage ⟨10, 2, 1, 0⟩ where
  fileType := rfl
  formatted := ⟨_, rfl, by decide⟩
  structured := rfl
  uncompressed := rfl
  depth := by decide
  navigated := ⟨_, rfl⟩

/-- Of two files with the same header only the one with all bytes of its pixels is loaded. -/
theorem ofFiles_loads_twoPixels :
    let source := ofFiles twoPixelTree [some "whole", some "cut", none] ⟨2, 1, 10⟩
    source.load 0 = .ok #[1023, 1] ∧ (∀ samples, source.load 1 ≠ .ok samples) ∧
      source.load 2 = .error (.value (.segmentUnavailable 2)) := by
  intro source
  obtain ⟨hwhole, -⟩ := ofFiles_loads_segments twoPixelTree
    [some "whole", some "cut", none] ⟨2, 1, 10⟩ 0
  obtain ⟨hcut, -⟩ := ofFiles_loads_segments twoPixelTree
    [some "whole", some "cut", none] ⟨2, 1, 10⟩ 1
  obtain ⟨-, hnone⟩ := ofFiles_loads_segments twoPixelTree
    [some "whole", some "cut", none] ⟨2, 1, 10⟩ 2
  refine ⟨((hwhole "whole" rfl).1 _).mpr ⟨twoPixelFile [0xff, 0xc0, 0x10, 0x55], _, rfl,
    SegmentHeader.ofBytes_of_isWritten (isWritten_twoPixelFile _), ?_, ?_⟩, ?_, hnone (by simp)⟩
  · exact ⟨⟨_, describesImage_twoPixel, rfl⟩, by decide, by decide, by decide⟩
  · decide
  · intro samples hsamples
    obtain ⟨file, h, hfile, hheader, hholds, -⟩ := ((hcut "cut" rfl).1 samples).mp hsamples
    have hsame : twoPixelFile [0xff, 0xc0] = file := by
      cases hfile
      rfl
    subst hsame
    rw [SegmentHeader.ofBytes_of_isWritten (isWritten_twoPixelFile _)] at hheader
    cases hheader
    exact absurd hholds.available (by decide)

end SegmentSource

end SeviriImagery
