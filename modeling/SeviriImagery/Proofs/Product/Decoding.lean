import SeviriImagery.Product.Assembly
import SeviriImagery.Proofs.Frame.Reading
import SeviriImagery.Proofs.Product.Attempt
import SeviriImagery.Proofs.Product.Location
import SeviriImagery.Proofs.Segment.File

/-!
# Decoding a product that was written

A product that is held by a directory is decoded in the same steps as any other.  Here the steps
are followed for a product of the lower resolution: its headers are opened
(`ProductLayout.IsOpened`), each of its segments is loaded and unpacked, and every pixel of the
frame gets its count (`ProductLayout.countAt`).  `FileTree.HoldsProduct.decode_counts` puts them
together for a calibration that keeps counts.
-/

namespace SeviriImagery

/-- What is wanted is all pixels, with their counts as they are. -/
def DecodeOptions.raw (missingValue : Float32) : DecodeOptions :=
  ⟨none, none, false, missingValue, false⟩

/-- A frame without half images has a sample for every pixel. -/
theorem Frame.resolve_of_no_halves {f : Frame} (hfits : f.Fits) (hhalves : f.halves = none)
    {x y : Nat} (hx : x < f.segmentColumns) (hy : y < f.lines) :
    f.resolve x y = some ⟨f.storedLine y / f.segmentLines,
      f.storedLine y % f.segmentLines * f.segmentColumns + f.storedColumn x⟩ := by
  have hcolumns : f.columns = f.segmentColumns := by simp [columns, hhalves]
  have hstart : f.lineStart y = 0 := by simp [lineStart, hhalves]
  have hsample : f.hasSample x y = true := by
    simp [hasSample, hcolumns, hstart, hx, hy]
  rw [resolve_of_hasSample hfits hsample, lineSegment, offsetInSegment, hstart, Nat.sub_zero]

/-- Every line of such a frame has samples. -/
theorem Frame.lineHasSamples_of_no_halves {f : Frame} (hhalves : f.halves = none) {y : Nat}
    (hcolumns : 0 < f.segmentColumns) (hy : y < f.lines) : f.lineHasSamples y = true := by
  simp [lineHasSamples, lineStart, columns, hhalves, hcolumns, hy]

/-- The pixels of an image with a count at each place. -/
def PixelData.ofCountAt (columns lines bitsPerPixel : Nat) (gain : Gain) (missingValue : Float32)
    (count : Nat → Nat → Nat) : PixelData where
  columns := columns
  lines := lines
  gain := gain
  bitsPerPixel := bitsPerPixel
  scalesToInt := scalesExactly gain
  missingValue := missingValue
  samples := .counts (.ofDepth bitsPerPixel)
    (Array.ofFn (n := columns * lines) fun i => count (i % columns) (i / columns))

/-- The count of a pixel is the one at its place. -/
theorem PixelData.raw_ofCountAt {columns lines bitsPerPixel : Nat} {gain : Gain}
    {missingValue : Float32} {count : Nat → Nat → Nat} {x y : Nat} (hx : x < columns)
    (hy : y < lines) :
    (ofCountAt columns lines bitsPerPixel gain missingValue count).raw x y = some (count x y) := by
  obtain ⟨hindex, hcolumn, hline⟩ := place_spec hx hy
  rw [Nat.mul_comm lines columns] at hindex
  simp only [raw, ofCountAt, index, Array.getD_eq_getD_getElem?, Array.getElem?_ofFn,
    dif_pos hindex, hcolumn, hline, Option.getD_some]

/-- A count that its bits can hold is let pass. -/
theorem FrameReader.checkedCount_of_lt {bitsPerPixel count : Nat} (hcount : count < 2 ^ bitsPerPixel) :
    checkedCount bitsPerPixel count = .ok count := by
  rw [checkedCount, Nat.one_shiftLeft, if_pos hcount]

/-- A frame of which every pixel has its count is read as these counts. -/
theorem FrameReader.readArea_counts {r : FrameReader} {c : Calibration} {bitsPerPixel : Nat}
    {options : DecodeOptions} {lines : Nat} {count : Nat → Nat → Nat} (hkeeps : c.keepsCounts)
    (hcancelled : options.cancelled = false) (hcolumns : r.frame.columns ≠ 0) (hlines : lines ≠ 0)
    (hfits : (⟨0, 0, r.frame.columns, lines⟩ : PixelArea).Fits)
    (hpixel : ∀ x y, x < r.frame.columns → y < lines →
      r.pixel (checkedCount bitsPerPixel) x y = .ok (count x y)) :
    (r.readArea ⟨0, 0, r.frame.columns, lines⟩ c bitsPerPixel options .fresh).1 =
      .ok (.ofCountAt r.frame.columns lines bitsPerPixel c.gain options.missingValue count) := by
  have hwithin : (⟨0, 0, r.frame.columns, lines⟩ : PixelArea).isWithin r.frame.columns lines := by
    simp [PixelArea.isWithin, hcolumns, hlines]
  have hread := readRows_ofFn (SegmentCache.agrees_fresh r.source) hwithin hpixel
  simp only [Nat.zero_add] at hread
  rw [readArea_of_keepsCounts _ _ _ _ _ _ hkeeps, hcancelled, readCells_of_fits hfits, hread]
  simp only [Except.bind]
  rw [PixelData.make_of_size (by simp [Samples.size, Size.mul])]
  rfl

namespace ProductLayout

/-- The frame of a product of the lower resolution. -/
def frame (l : ProductLayout) : Frame where
  segmentColumns := l.segmentColumns.toNat
  segmentLines := l.segmentLines.toNat
  segments := l.plannedEnd.toNat
  fromEast := l.columnFactor < 0
  fromSouth := l.lineFactor < 0
  halves := none

/-- The count of a pixel: the stored sample of its segment, or 0 if the segment is not there. -/
def countAt (l : ProductLayout) (segments : UInt16 → Option (Array Nat)) (x y : Nat) : Nat :=
  let lines := l.plannedEnd.toNat * l.segmentLines.toNat
  let row := if l.lineFactor < 0 then lines - 1 - y else y
  let column := if l.columnFactor < 0 then l.segmentColumns.toNat - 1 - x else x
  match segments (.ofNat (row / l.segmentLines.toNat + 1)) with
  | some samples =>
      samples.getD (row % l.segmentLines.toNat * l.segmentColumns.toNat + column) 0 %
        2 ^ l.bitsPerPixel.toNat
  | none => 0

/-- A layout of a product that can be decoded. -/
structure IsSound (l : ProductLayout) : Prop where
  name : l.name.IsWritable
  channel : l.channel ≠ .hrv
  depth : 1 ≤ l.bitsPerPixel.toNat ∧ l.bitsPerPixel.toNat ≤ 16
  columns : l.segmentColumns ≠ 0
  lines : l.segmentLines ≠ 0
  segments : l.plannedEnd ≠ 0
  format : l.dataFormat ≠ 0

/-- The access to the segments of a product that is found. -/
def reader (l : ProductLayout) (t : FileTree) (p : LocatedProduct) : FrameReader :=
  ⟨l.frame, l.imageStructure.shape, .ofFiles t p.segments l.imageStructure.shape⟩

/-- What a product that was written says when it is opened. -/
structure IsOpened (l : ProductLayout) (t : FileTree) (product : LocatedProduct) (p : Prologue)
    (o : LocatedProduct.Opened) : Prop where
  prologue : o.prologue = p
  channel : o.channel = l.channel
  depth : o.bitsPerPixel = l.bitsPerPixel.toNat
  navigation : o.navigation = l.readNavigation
  spacecraft : o.identification.spacecraft = l.spacecraft
  number : o.identification.channel = l.channel.number
  reader : o.reader = l.reader t product

variable {l : ProductLayout} {sequence : UInt16} {h : SegmentHeader}

/-- The fields of a layout are words. -/
theorem isOfWords_frame (l : ProductLayout) : l.frame.IsOfWords :=
  ⟨l.segmentColumns.toNat_lt, l.segmentLines.toNat_lt, l.plannedEnd.toNat_lt⟩

theorem lines_frame (l : ProductLayout) :
    l.frame.lines = l.plannedEnd.toNat * l.segmentLines.toNat :=
  (Frame.lines_eq l.isOfWords_frame.fits).trans (Nat.mul_comm _ _)

/-- A header of a sound layout describes image data that can be read. -/
theorem Describes.describesImage (hdescribes : l.Describes sequence h) (hsound : l.IsSound) :
    h.DescribesImage l.imageStructure where
  fileType := hdescribes.fileType
  formatted := ⟨_, hdescribes.identification, hsound.format⟩
  structured := hdescribes.imageStructure
  uncompressed := rfl
  depth := hsound.depth
  navigated := ⟨_, hdescribes.navigation⟩

theorem Describes.checkImageData (hdescribes : l.Describes sequence h) (hsound : l.IsSound) :
    h.checkImageData = .ok () :=
  SegmentHeader.checkImageData_eq_ok_iff.mpr ⟨_, hdescribes.describesImage hsound⟩

variable {t : FileTree} {product : LocatedProduct}

/-- The segments of a product can be accessed if its first header is that of a layout. -/
theorem Describes.ofProduct (hdescribes : l.Describes sequence product.firstHeader)
    (hsound : l.IsSound) (c : Coverage) :
    FrameReader.ofProduct t product c =
      .ok ⟨{ l.frame with segments := product.plannedCount }, l.imageStructure.shape,
        .ofFiles t product.segments l.imageStructure.shape⟩ := by
  have hnumber : l.channel.number ≠ Channel.hrv.number := by
    intro hsame
    have hchannel := Channel.ofNumber?_number l.channel
    rw [hsame, Channel.ofNumber?_number] at hchannel
    exact hsound.channel (Option.some.inj hchannel).symm
  have hidentification : (l.identification sequence).channel = l.channel.number := rfl
  simp only [FrameReader.ofProduct, SegmentHeader.requireStructure, SegmentHeader.requireNavigation,
    SegmentHeader.requireIdentification, hdescribes.imageStructure, hdescribes.navigation,
    hdescribes.identification, Option.elim, Outcome.ok_mapError, Outcome.ok_bind, hidentification,
    if_neg hnumber]
  rfl

/-- The segments of a product that is found can be accessed. -/
theorem IsLocated.ofProduct {segments : UInt16 → Option (Array Nat)}
    (hlocated : l.IsLocated segments product) (hsound : l.IsSound) (c : Coverage) :
    FrameReader.ofProduct t product c = .ok (l.reader t product) := by
  obtain ⟨sequence, hdescribes⟩ := hlocated.header
  have hcount : product.plannedCount = l.plannedEnd.toNat := hlocated.count
  rw [hdescribes.ofProduct hsound c, hcount]
  rfl

end ProductLayout

/-- A prologue is read from a file of its bytes. -/
theorem Prologue.StandsIn.readPrologue {p : Prologue} {bytes : List UInt8}
    (hstands : p.StandsIn bytes) {t : FileTree} {path : String}
    (hread : t.readBytes path = .ok bytes) : t.readPrologue path = .ok p := by
  obtain ⟨header, data, hfile, htype, hprologue⟩ := hstands
  rw [FileTree.readPrologue, FileTree.readDataField, FileTree.headerAndData, hread,
    Outcome.ok_bind, hfile]
  simp only [Outcome.ok_mapError, Outcome.ok_inFile, Outcome.ok_bind, htype, ne_eq,
    not_true_eq_false, if_false, pure, Except.pure, hprologue]

/-- A product in a directory through which no search comes is not decoded. -/
theorem FileTree.decode_astray {t : FileTree} {place : Place} {name : ProductName}
    (hwf : t.WellFormed) (hname : name.IsWritable) (hfolder : t.IsFolder name.directory place)
    (hastray : Path.isSearchable name.directory = false) (options : DecodeOptions) :
    (t.decode name options).result = .error (.locate (.noSuchFile (name.pattern .prologue))) := by
  rw [decode, Noted.result_bind, locate_astray hwf hname hfolder hastray]
  rfl

namespace FileTree.HoldsProduct

variable {t : FileTree} {place : Place} {l : ProductLayout} {p : Prologue}
  {segments : UInt16 → Option (Array Nat)} {product : LocatedProduct}

theorem readPrologue (hholds : t.HoldsProduct place l p segments) (hname : l.name.IsWritable)
    (hsearchable : Path.isSearchable l.name.directory) :
    t.readPrologue (l.foundPath .prologue) = .ok p := by
  obtain ⟨bytes, hentry, hstands⟩ := hholds.prologue
  exact hstands.readPrologue (hholds.readBytes_foundPath hname hsearchable hentry)

/-- The samples of a segment are loaded where it is found. -/
theorem readSamples (hholds : t.HoldsProduct place l p segments) (hsound : l.IsSound)
    (hsearchable : Path.isSearchable l.name.directory) {sequence : UInt16} {samples : Array Nat}
    (hsamples : segments sequence = some samples) :
    t.readSamples (l.foundPath (.segment sequence)) l.imageStructure.shape =
      .ok (samples.map (· % 2 ^ l.bitsPerPixel.toNat)) := by
  obtain ⟨bytes, hentry, header, data, hread, hdescribes, hunpack⟩ :=
    hholds.present sequence samples hsamples
  have hunpack : Packing.unpack data l.imageStructure.shape.bitsPerPixel
      l.imageStructure.shape.pixels = .ok (samples.map (· % 2 ^ l.bitsPerPixel.toNat)) := hunpack
  rw [FileTree.readSamples, headerAndData,
    hholds.readBytes_foundPath hsound.name hsearchable hentry, Outcome.ok_bind, hread]
  have hsamples := SegmentHeader.samples_eq_ok_iff.mpr
    ⟨⟨_, hdescribes.describesImage hsound, rfl⟩, hunpack⟩
  simp only [Outcome.ok_inFile, Outcome.ok_mapError, Outcome.ok_bind, hsamples]

/-- **A product that was written is opened**, and says what was written. -/
theorem openHeaders (hholds : t.HoldsProduct place l p segments) (hsound : l.IsSound)
    (hsearchable : Path.isSearchable l.name.directory) (hlocated : l.IsLocated segments product) :
    ∃ o, (product.openHeaders t).result = .ok o ∧ l.IsOpened t product p o := by
  obtain ⟨sequence, hdescribes⟩ := hlocated.header
  have hprologue := hholds.readPrologue hsound.name hsearchable
  rw [← hlocated.prologue] at hprologue
  have hnumber : (l.identification sequence).channel = l.channel.number := rfl
  refine ⟨⟨p, l.channel, l.bitsPerPixel.toNat, l.readNavigation, l.identification sequence,
    l.reader t product⟩, ?_, rfl, rfl, rfl, rfl, rfl, rfl, rfl⟩
  simp only [LocatedProduct.openHeaders, Noted.result_bind, Noted.result_monadLift,
    hdescribes.checkImageData hsound, hprologue, SegmentHeader.requireStructure,
    SegmentHeader.requireNavigation, SegmentHeader.requireIdentification, hdescribes.imageStructure,
    hdescribes.navigation, hdescribes.identification, hnumber, Channel.ofNumber?_number, Option.elim,
    Outcome.ok_mapError, Outcome.ok_inFile, Outcome.ok_bind, hlocated.ofProduct hsound,
    if_neg hsound.channel]
  rfl

/-- A segment of the product is loaded with its samples, as far as their bits were kept; one that
is not there is absent. -/
theorem segment_source (hholds : t.HoldsProduct place l p segments) (hsound : l.IsSound)
    (hsearchable : Path.isSearchable l.name.directory) (hlocated : l.IsLocated segments product)
    {index : Nat} (hindex : index < l.plannedEnd.toNat) :
    (l.reader t product).source.segment index =
      .ok ((segments (.ofNat (index + 1))).map fun samples =>
        samples.map (· % 2 ^ l.bitsPerPixel.toNat)) := by
  have hnumber : (UInt16.ofNat (index + 1)).toNat = index + 1 := by
    have hlimit := l.plannedEnd.toNat_lt
    rw [UInt16.toNat_ofNat', Nat.mod_eq_of_lt (by omega)]
  have hslot := hlocated.segment (.ofNat (index + 1)) (by omega) (by omega)
  rw [hnumber, Nat.add_sub_cancel] at hslot
  have hcount : index < product.segments.length := by rwa [hlocated.count]
  cases hsegment : segments (.ofNat (index + 1)) with
  | none =>
      rw [hsegment] at hslot
      have hoffers : (l.reader t product).source.offers index = false := by
        simp [ProductLayout.reader, SegmentSource.offers, SegmentSource.ofFiles, hslot]
      rw [SegmentSource.segment, hoffers]
      rfl
  | some samples =>
      rw [hsegment] at hslot
      have hpresent : (product.segments[index]?.getD none).isSome = true := by
        rw [hslot]
        rfl
      have hoffers : (l.reader t product).source.offers index = true := by
        rw [SegmentSource.offers, Bool.and_eq_true]
        exact ⟨decide_eq_true hcount, hpresent⟩
      have hload : (l.reader t product).source.load index =
          t.readSamples (l.foundPath (.segment (.ofNat (index + 1)))) l.imageStructure.shape := by
        simp [ProductLayout.reader, SegmentSource.ofFiles, hslot]
      rw [SegmentSource.segment, if_pos hoffers, hload,
        hholds.readSamples hsound hsearchable hsegment]
      rfl

/-- **Every pixel of the frame has its count.** -/
theorem pixel_eq (hholds : t.HoldsProduct place l p segments) (hsound : l.IsSound)
    (hsearchable : Path.isSearchable l.name.directory) (hlocated : l.IsLocated segments product)
    {x y : Nat} (hx : x < l.frame.columns) (hy : y < l.frame.lines) :
    (l.reader t product).pixel (FrameReader.checkedCount l.bitsPerPixel.toNat) x y =
      .ok (l.countAt segments x y) := by
  have hcolumns : x < l.frame.segmentColumns := hx
  have hlines := l.lines_frame
  have hheight : 0 < l.segmentLines.toNat := by
    rw [Nat.pos_iff_ne_zero, Ne, ← UInt16.toNat_zero, UInt16.toNat_inj]
    exact hsound.lines
  have hstored : l.frame.storedLine y =
      if l.lineFactor < 0 then l.plannedEnd.toNat * l.segmentLines.toNat - 1 - y else y := by
    rw [Frame.storedLine_eq hy, hlines]
    simp [ProductLayout.frame]
  have hturned : l.frame.storedColumn x =
      if l.columnFactor < 0 then l.segmentColumns.toNat - 1 - x else x := by
    rw [Frame.storedColumn]
    simp [ProductLayout.frame]
  have hinside : l.frame.storedLine y < l.plannedEnd.toNat * l.segmentLines.toNat := by
    rw [hlines] at hy
    rw [hstored]
    split <;> omega
  have hindex : l.frame.lineSegment y < l.plannedEnd.toNat :=
    (Nat.div_lt_iff_lt_mul hheight).mpr hinside
  have hline : (l.reader t product).lineCounts y =
      .ok ((l.reader t product).lineOf y ((segments (.ofNat (l.frame.lineSegment y + 1))).map
        fun samples => samples.map (· % 2 ^ l.bitsPerPixel.toNat))) := by
    have hsamples : l.frame.lineHasSamples y = true :=
      Frame.lineHasSamples_of_no_halves rfl (by omega) hy
    have hsource := hholds.segment_source hsound hsearchable hlocated hindex
    have hframe : (l.reader t product).frame = l.frame := rfl
    rw [FrameReader.lineCounts, hframe, if_neg (Nat.not_le.mpr hy), if_pos hsamples, hsource]
    rfl
  have hcount : ((l.reader t product).lineOf y ((segments (.ofNat (l.frame.lineSegment y + 1))).map
      fun samples => samples.map (· % 2 ^ l.bitsPerPixel.toNat))).getD x 0 =
        l.countAt segments x y := by
    have hresolve := @Frame.resolve_of_no_halves l.frame l.isOfWords_frame.fits rfl x y hcolumns hy
    have hframe : (l.reader t product).frame = l.frame := rfl
    rw [FrameReader.lineOf, Array.getD_eq_getD_getElem?, Array.getElem?_ofFn, hframe, dif_pos hx,
      Option.getD_some]
    simp only [hresolve]
    rw [ProductLayout.countAt, Frame.lineSegment, ← hstored, ← hturned]
    have hheight : l.frame.segmentLines = l.segmentLines.toNat := rfl
    have hwidth : l.frame.segmentColumns = l.segmentColumns.toNat := rfl
    rw [hheight, hwidth]
    cases segments (.ofNat (l.frame.storedLine y / l.segmentLines.toNat + 1)) with
    | none => rfl
    | some samples =>
        simp only [Option.map_some, FrameReader.countAt, Array.getD_eq_getD_getElem?,
          Array.getElem?_map]
        cases samples[l.frame.storedLine y % l.segmentLines.toNat * l.segmentColumns.toNat +
          l.frame.storedColumn x]? with
        | none => exact (Nat.zero_mod _).symm
        | some count => rfl
  rw [FrameReader.pixel_eq_ok_iff hline, hcount]
  refine FrameReader.checkedCount_of_lt ?_
  rw [ProductLayout.countAt]
  split
  · exact Nat.mod_lt _ (Nat.two_pow_pos _)
  · exact Nat.two_pow_pos _

/-- **A product that was written is decoded.**  If its counts are kept, the image has the count of
every pixel, and what is known about it is what its headers and its prologue say. -/
theorem decode_counts (hholds : t.HoldsProduct place l p segments) (hsound : l.IsSound)
    (hsearchable : Path.isSearchable l.name.directory)
    (hsome : ∃ sequence : UInt16, 1 ≤ sequence.toNat ∧ sequence.toNat ≤ l.plannedEnd.toNat ∧
      (segments sequence).isSome)
    {options : DecodeOptions} (hcancelled : options.cancelled = false) {c : Calibration}
    (hkeeps : c.keepsCounts)
    (hcalibration : ∀ o product, l.IsOpened t product p o →
      (LocatedProduct.calibration o options).result = .ok c) :
    ∃ product o, l.IsLocated segments product ∧ l.IsOpened t product p o ∧
      (t.decode l.name { options with area := none, geoArea := none }).result =
        .ok { product.frameImage o with
          data := .ofCountAt l.segmentColumns.toNat (l.plannedEnd.toNat * l.segmentLines.toNat)
            l.bitsPerPixel.toNat c.gain options.missingValue (l.countAt segments)
          x0 := 0
          y0 := 0 } := by
  obtain ⟨product, hproduct, hlocated⟩ := hholds.locate hsound.name hsearchable hsome
  obtain ⟨o, hopen, hopened⟩ := hholds.openHeaders hsound hsearchable hlocated
  refine ⟨product, o, hlocated, hopened, ?_⟩
  have hcolumns : l.frame.columns ≠ 0 := by
    show l.segmentColumns.toNat ≠ 0
    rw [← UInt16.toNat_zero, Ne, UInt16.toNat_inj]
    exact hsound.columns
  have hheight : l.segmentLines.toNat ≠ 0 := by
    rw [← UInt16.toNat_zero, Ne, UInt16.toNat_inj]
    exact hsound.lines
  have hplanned : l.plannedEnd.toNat ≠ 0 := by
    rw [← UInt16.toNat_zero, Ne, UInt16.toNat_inj]
    exact hsound.segments
  have hlines : l.frame.lines ≠ 0 := by
    rw [l.lines_frame]
    exact Nat.mul_ne_zero hplanned hheight
  have hfits : (⟨0, 0, l.frame.columns, l.frame.lines⟩ : PixelArea).Fits :=
    l.isOfWords_frame.fits_whole
  have hframe : o.reader.frame = l.frame := by rw [hopened.reader]; rfl
  have hwhole : LocatedProduct.requestedArea (product.frameImage o) o.reader
      { options with area := none, geoArea := none } =
        .ok ⟨0, 0, o.reader.frame.columns, o.reader.frame.lines⟩ := by
    rw [LocatedProduct.requestedArea_whole_eq_ok_iff, hframe,
      PixelArea.endsWithin_iff_isWithin hfits]
    simp [PixelArea.isWithin, hcolumns, hlines]
  have hcalibrated : (LocatedProduct.calibration o
      { options with area := none, geoArea := none }).result = .ok c :=
    hcalibration o product hopened
  have hpixel : ∀ x y, x < o.reader.frame.columns → y < o.reader.frame.lines →
      o.reader.pixel (FrameReader.checkedCount o.bitsPerPixel) x y =
        .ok (l.countAt segments x y) := by
    rw [hframe, hopened.reader, hopened.depth]
    exact fun x y hx hy => hholds.pixel_eq hsound hsearchable hlocated hx hy
  have hread := @FrameReader.readArea_counts o.reader c o.bitsPerPixel
    { options with area := none, geoArea := none } o.reader.frame.lines (l.countAt segments) hkeeps
    hcancelled (by rwa [hframe]) (by rwa [hframe]) (by rwa [hframe]) hpixel
  rw [decode, Noted.result_bind, hproduct, Outcome.ok_bind, LocatedProduct.attempt_result, hopen,
    Outcome.ok_bind, hcalibrated, Outcome.ok_bind, hwhole, Outcome.ok_bind, hread, Outcome.ok_map,
    LocatedProduct.areaImage_whole, hframe, hopened.depth, l.lines_frame]
  rfl

/-- What is located, opened and read on the way to the counts of a product that was written. -/
theorem attempt_raw (hholds : t.HoldsProduct place l p segments) (hsound : l.IsSound)
    (hsearchable : Path.isSearchable l.name.directory)
    (hsome : ∃ sequence : UInt16, 1 ≤ sequence.toNat ∧ sequence.toNat ≤ l.plannedEnd.toNat ∧
      (segments sequence).isSome) (missingValue : Float32) :
    ∃ product o image, l.IsLocated segments product ∧ (product.openHeaders t).result = .ok o ∧
      l.IsOpened t product p o ∧
      (product.attempt t (.raw missingValue) .located).result = .ok image := by
  obtain ⟨product, hproduct, hlocated⟩ := hholds.locate hsound.name hsearchable hsome
  obtain ⟨o, hopen, hopened⟩ := hholds.openHeaders hsound hsearchable hlocated
  have hidentity : ∀ o product, l.IsOpened t product p o →
      (LocatedProduct.calibration o (.raw missingValue)).result =
        .ok Calibration.identity := fun _ _ _ => rfl
  obtain ⟨_, _, -, -, hdecode⟩ :=
    hholds.decode_counts hsound hsearchable hsome rfl rfl hidentity
  rw [FileTree.decode, Noted.result_bind, hproduct, Outcome.ok_bind] at hdecode
  exact ⟨product, o, _, hlocated, hopen, hopened, hdecode⟩

/-- A product in a directory through which no search comes is not decoded. -/
theorem decode_astray (hholds : t.HoldsProduct place l p segments) (hname : l.name.IsWritable)
    (hastray : Path.isSearchable l.name.directory = false) (options : DecodeOptions) :
    (t.decode l.name options).result =
      .error (.locate (.noSuchFile (l.name.pattern .prologue))) :=
  FileTree.decode_astray hholds.wellFormed hname hholds.folder hastray options

end FileTree.HoldsProduct

end SeviriImagery
