import SeviriImagery.Proofs.Image.Cropping
import SeviriImagery.Proofs.Product.Calibrated

/-!
# What the offsets of a frame name

The offsets in a header name a stored column and a stored line, both counted from one.  The pixel
of the frame that holds their sample is counted from zero, from the other side where an axis is
turned (`Frame.placeOf`), and the sample is found behind it (`Frame.resolve_placeOf`).

The offsets of the frame are the place of that pixel along an axis that is turned.  Along one that
is not they are taken over as they stand and are greater by one, since they still count from one
(`LocatedProduct.frameOffset_eq`).  So they name the sample only if both axes are turned, as they
are in all products of the satellite (`LocatedProduct.offsets_name_sample_iff`).
-/

namespace SeviriImagery

/-- The place of the sample in the stored column and line of these numbers, counted from one. -/
def ImageStructure.address (s : ImageStructure) (column line : Nat) : SampleAddress :=
  ⟨(line - 1) / s.lines.toNat, (line - 1) % s.lines.toNat * s.columns.toNat + (column - 1)⟩

/-- The pixel that an image has below the satellite holds this sample of a frame. -/
def Image.OffsetsName (i : Image) (f : Frame) (a : SampleAddress) : Prop :=
  ∃ x y : Nat, i.columnOffset.toInt = x ∧ i.lineOffset.toInt = y ∧ f.resolve x y = some a

namespace Frame

variable {f : Frame} {column line : Nat}

/-- The place in a frame, counted from zero, of the stored column or line of a number, counted from
one. -/
def placeOf (reversed : Bool) (size number : Nat) : Nat :=
  if reversed then size - number else number - 1

theorem placeOf_lt (reversed : Bool) {size number : Nat} (hone : 1 ≤ number)
    (hlast : number ≤ size) : placeOf reversed size number < size := by
  unfold placeOf
  split <;> omega

theorem storedColumn_placeOf (hone : 1 ≤ column) (hlast : column ≤ f.segmentColumns) :
    f.storedColumn (placeOf f.fromEast f.segmentColumns column) = column - 1 := by
  unfold storedColumn placeOf
  split <;> omega

theorem storedLine_placeOf (hone : 1 ≤ line) (hlast : line ≤ f.lines) :
    f.storedLine (placeOf f.fromSouth f.lines line) = line - 1 := by
  rw [storedLine_eq (placeOf_lt _ hone hlast), placeOf]
  split <;> omega

/-- The pixel at these places has the sample of the stored column and line behind it. -/
theorem resolve_placeOf (hfits : f.Fits) (hhalves : f.halves = none)
    (hcolumn : 1 ≤ column ∧ column ≤ f.segmentColumns) (hline : 1 ≤ line ∧ line ≤ f.lines) :
    f.resolve (placeOf f.fromEast f.segmentColumns column) (placeOf f.fromSouth f.lines line) =
      some ⟨(line - 1) / f.segmentLines,
        (line - 1) % f.segmentLines * f.segmentColumns + (column - 1)⟩ := by
  rw [resolve_of_no_halves hfits hhalves (placeOf_lt _ hcolumn.1 hcolumn.2)
      (placeOf_lt _ hline.1 hline.2),
    storedLine_placeOf hline.1 hline.2, storedColumn_placeOf hcolumn.1 hcolumn.2]

end Frame

/-- A word that is made of a number and of no more than one stands for the number only if nothing
was added and the number fits. -/
theorem toInt_ofNat_add_iff {m k : Nat} (hk : k ≤ 1) :
    (Int32.ofNat (m + k)).toInt = m ↔ k = 0 ∧ m < 2 ^ 31 := by
  rw [Int32.toInt_ofNat', Int32.size, Int.bmod_def]
  omega

/-- Offsets that are the place of a sample's pixel, or more by one along an axis, name the sample only
if they are the place itself. -/
theorem Image.offsetsName_iff {i : Image} {f : Frame} {a : SampleAddress} {x y m n : Nat}
    (hfits : f.Fits) (hresolve : f.resolve x y = some a) (hm : m ≤ 1) (hn : n ≤ 1)
    (hcolumn : i.columnOffset = Int32.ofNat (x + m)) (hline : i.lineOffset = Int32.ofNat (y + n)) :
    i.OffsetsName f a ↔ (m = 0 ∧ x < 2 ^ 31) ∧ (n = 0 ∧ y < 2 ^ 31) := by
  rw [← toInt_ofNat_add_iff hm, ← toInt_ofNat_add_iff hn, ← hcolumn, ← hline]
  constructor
  · intro hnames
    obtain ⟨x', y', hx, hy, hsame⟩ := hnames
    obtain ⟨rfl, rfl⟩ := Frame.resolve_inj hfits hresolve hsame
    exact ⟨hx, hy⟩
  · intro hplace
    exact ⟨x, y, hplace.1, hplace.2, hresolve⟩

namespace LocatedProduct

variable {t : FileTree} {p : LocatedProduct} {o : Opened} {s : ImageStructure}
  {n : ImageNavigation} {i : SegmentIdentification}

/-- The frame of a product of the lower resolution, and the offsets that go with it. -/
theorem frame_of_openHeaders (hopen : (p.openHeaders t).result = .ok o)
    (hstructure : p.firstHeader.requireStructure = .ok s)
    (hnavigation : p.firstHeader.requireNavigation = .ok n)
    (hidentification : p.firstHeader.requireIdentification = .ok i)
    (hchannel : i.channel ≠ Channel.hrv.number) :
    o.navigation = n ∧ o.reader.frame =
      ⟨s.columns.toNat, s.lines.toNat, p.plannedCount, n.columnFactor < 0, n.lineFactor < 0,
        none⟩ := by
  rw [openHeaders_result] at hopen
  simp only [FrameReader.ofProduct, hstructure, hnavigation, hidentification, Outcome.ok_mapError,
    Outcome.ok_bind, if_neg hchannel, Outcome.bind_eq_ok_iff] at hopen
  obtain ⟨_, -, prologue, -, channel, -, coverage, -, reader, ⟨halves, hhalves, hreader⟩,
    hopened⟩ := hopen
  cases hhalves
  cases hreader
  cases hopened
  exact ⟨rfl, rfl⟩

/-- **The offset of a frame along an axis** is the place of the stored column or line that the header
names, if the axis is turned, and one more if it is not. -/
theorem frameOffset_eq (reversed : Bool) {size number : Nat} {w : Int32} (hone : 1 ≤ number)
    (hlast : number ≤ size) (hw : w.toInt = number) :
    frameOffset reversed size w =
      Int32.ofNat (Frame.placeOf reversed size number + if reversed then 0 else 1) := by
  have hword : w = Int32.ofNat number := by
    rw [← Int32.ofInt_toInt w, hw, Int32.ofInt_eq_ofNat]
  unfold frameOffset Frame.placeOf
  rw [hword]
  cases reversed with
  | true =>
      obtain ⟨rest, rfl⟩ := Nat.exists_eq_add_of_le hlast
      simp only [if_true, Nat.add_zero, Nat.add_sub_cancel_left, Int32.ofNat_add]
      grind
  | false =>
      simp only [Bool.false_eq_true, if_false]
      rw [Nat.sub_add_cancel hone]

/-- What comes of a product that is decoded as a whole. -/
theorem exists_of_attempt_whole {options : DecodeOptions} {start : Stage} {image : Image}
    (hdecoded : (p.attempt t { options with area := none, geoArea := none } start).result =
      .ok image) :
    ∃ o, (p.openHeaders t).result = .ok o ∧ image.columns = o.reader.frame.columns ∧
      image.lines = o.reader.frame.lines ∧
      image.columnOffset = frameOffset o.reader.frame.fromEast o.reader.frame.columns
        o.navigation.columnOffset ∧
      image.lineOffset = frameOffset o.reader.frame.fromSouth o.reader.frame.lines
        o.navigation.lineOffset := by
  obtain ⟨o, area, counts, hopen, hwanted, -, himage⟩ := attempt_eq_ok_iff.mp hdecoded
  obtain ⟨-, rfl⟩ := requestedArea_whole_eq_ok_iff.mp hwanted
  rw [areaImage_whole] at himage
  obtain ⟨hcolumns, hlines, -⟩ := o.pixels_shape { options with area := none, geoArea := none }
    ⟨0, 0, o.reader.frame.columns, o.reader.frame.lines⟩ counts
  rw [himage]
  exact ⟨o, hopen, hcolumns, hlines, rfl, rfl⟩

/-- **When the offsets of a frame name what those of the header name.**  Let a product of the lower
resolution be decoded as a whole, and let its header name a stored column and a stored line.  Their
sample is behind one pixel of the frame.  The offsets of the image are the column and the line of
that pixel along each axis that is turned, and greater by one along each that is not, all as words.
So the image has that sample below the satellite exactly if both axes are turned and the line is
small enough for a word. -/
theorem offsets_name_sample_iff {options : DecodeOptions} {start : Stage} {image : Image}
    {column line : Nat}
    (hdecoded : (p.attempt t { options with area := none, geoArea := none } start).result =
      .ok image)
    (hstructure : p.firstHeader.requireStructure = .ok s)
    (hnavigation : p.firstHeader.requireNavigation = .ok n)
    (hidentification : p.firstHeader.requireIdentification = .ok i)
    (hchannel : i.channel ≠ Channel.hrv.number)
    (hcolumn : n.columnOffset.toInt = column ∧ 1 ≤ column ∧ column ≤ s.columns.toNat)
    (hline : n.lineOffset.toInt = line ∧ 1 ≤ line ∧ line ≤ s.lines.toNat * p.plannedCount) :
    ∃ o x y, (p.openHeaders t).result = .ok o ∧
      (x < image.columns ∧ y < image.lines ∧
        o.reader.frame.resolve x y = some (s.address column line)) ∧
      image.columnOffset = Int32.ofNat (x + if n.columnFactor < 0 then 0 else 1) ∧
      image.lineOffset = Int32.ofNat (y + if n.lineFactor < 0 then 0 else 1) ∧
      (image.OffsetsName o.reader.frame (s.address column line) ↔
        n.columnFactor < 0 ∧ n.lineFactor < 0 ∧ y < 2 ^ 31) := by
  obtain ⟨o, hopen, hwidth, hheight, hcolumnOffset, hlineOffset⟩ :=
    exists_of_attempt_whole hdecoded
  obtain ⟨hsame, hframe⟩ :=
    frame_of_openHeaders hopen hstructure hnavigation hidentification hchannel
  obtain ⟨hcolumnWord, hcolumn⟩ := hcolumn
  obtain ⟨hlineWord, hline⟩ := hline
  have hfits := (isOfWords_of_openHeaders hopen).fits
  have hcolumns : o.reader.frame.columns = s.columns.toNat := by rw [hframe]; rfl
  have hlines : o.reader.frame.lines = s.lines.toNat * p.plannedCount := by
    rw [Frame.lines_eq hfits, hframe]
  obtain ⟨x, hx⟩ : ∃ x, x = Frame.placeOf (n.columnFactor < 0) s.columns.toNat column := ⟨_, rfl⟩
  obtain ⟨y, hy⟩ : ∃ y, y = Frame.placeOf (n.lineFactor < 0) (s.lines.toNat * p.plannedCount) line :=
    ⟨_, rfl⟩
  have hxlt : x < s.columns.toNat := hx ▸ Frame.placeOf_lt _ hcolumn.1 hcolumn.2
  have hylt : y < s.lines.toNat * p.plannedCount := hy ▸ Frame.placeOf_lt _ hline.1 hline.2
  have hresolve : o.reader.frame.resolve x y = some (s.address column line) := by
    have hhalves : o.reader.frame.halves = none := by rw [hframe]
    have hwidth : o.reader.frame.segmentColumns = s.columns.toNat := by rw [hframe]
    have hplace := @Frame.resolve_placeOf o.reader.frame column line hfits hhalves
      (by rwa [hwidth]) (by rwa [hlines])
    rw [hlines] at hplace
    rw [hx, hy]
    rw [hframe] at hplace ⊢
    exact hplace
  have hcolumnOffset : image.columnOffset =
      Int32.ofNat (x + if n.columnFactor < 0 then 0 else 1) := by
    rw [hcolumnOffset, hcolumns, hsame, hframe, hx]
    simpa only [decide_eq_true_eq] using
      frameOffset_eq (n.columnFactor < 0) hcolumn.1 hcolumn.2 hcolumnWord
  have hlineOffset : image.lineOffset = Int32.ofNat (y + if n.lineFactor < 0 then 0 else 1) := by
    rw [hlineOffset, hlines, hsame, hframe, hy]
    simpa only [decide_eq_true_eq] using
      frameOffset_eq (n.lineFactor < 0) hline.1 hline.2 hlineWord
  refine ⟨o, x, y, hopen, ⟨?_, ?_, hresolve⟩, hcolumnOffset, hlineOffset, ?_⟩
  · rwa [hwidth, hcolumns]
  · rwa [hheight, hlines]
  · have hnames := Image.offsetsName_iff hfits hresolve (by split <;> decide) (by split <;> decide)
      hcolumnOffset hlineOffset
    -- a segment has fewer columns than there are words
    have hsmall : x < 2 ^ 31 := hxlt.trans (s.columns.toNat_lt.trans (by decide))
    simp only [hnames, hsmall, ite_eq_left_iff, one_ne_zero, imp_false, not_not, and_true]

/-- Two segments whose lines are stored from the south and their columns as their factor says. -/
def twoSegmentsAlong (columnFactor : Int32) : ProductLayout :=
  { ProductLayout.twoSegments "d" with columnFactor }

/-- With its columns stored from the east the product has the sample that its header names below the
satellite; with its columns stored from the west it has not. -/
theorem offsets_of_twoSegments :
    (∃ (product : LocatedProduct) (o : Opened) (image : Image),
      (product.attempt ((twoSegmentsAlong (-13642337)).performAll ProductLayout.oneDirectory
        ProductLayout.secondOnly).1 (.raw 0) .located).result = .ok image ∧
      o.reader.frame = (twoSegmentsAlong (-13642337)).frame ∧
      image.OffsetsName o.reader.frame ⟨0, 2⟩) ∧
    ∃ (product : LocatedProduct) (o : Opened) (image : Image),
      (product.attempt ((twoSegmentsAlong 13642337).performAll ProductLayout.oneDirectory
        ProductLayout.secondOnly).1 (.raw 0) .located).result = .ok image ∧
      o.reader.frame = (twoSegmentsAlong 13642337).frame ∧
      o.reader.frame.resolve 0 2 = some ⟨0, 2⟩ ∧ image.columnOffset = 1 ∧ image.lineOffset = 2 ∧
      ¬image.OffsetsName o.reader.frame ⟨0, 2⟩ := by
  have hdecoded : ∀ factor : Int32, ∃ (product : LocatedProduct) (o : Opened) (image : Image),
      (product.attempt ((twoSegmentsAlong factor).performAll ProductLayout.oneDirectory
        ProductLayout.secondOnly).1 (.raw 0) .located).result = .ok image ∧
      o.reader.frame = (twoSegmentsAlong factor).frame ∧
      ∃ x y, o.reader.frame.resolve x y = some ⟨0, 2⟩ ∧
        image.columnOffset = Int32.ofNat (x + if factor < 0 then 0 else 1) ∧
        image.lineOffset = Int32.ofNat y ∧
        (image.OffsetsName o.reader.frame ⟨0, 2⟩ ↔ factor < 0 ∧ y < 2 ^ 31) := by
    intro factor
    obtain ⟨hname, hchannel, hdepth, hcolumns, hlines, hsegments, hformat⟩ :=
      @ProductLayout.isSound_twoSegments "d" rfl
    have hsound : (twoSegmentsAlong factor).IsSound :=
      ⟨hname, hchannel, hdepth, hcolumns, hlines, hsegments, hformat⟩
    obtain ⟨p, hholds⟩ := ProductLayout.holdsProduct_oneDirectory hsound rfl
      (ProductLayout.fits_secondOnly "d")
    obtain ⟨product, o, image, hlocated, hopen, hopened, hattempt⟩ :=
      hholds.attempt_raw hsound (rfl : Path.isSearchable "d" = true)
        ⟨2, by decide, Nat.le_refl 2, rfl⟩ 0
    obtain ⟨sequence, hdescribes⟩ := hlocated.header
    have hplanned : product.plannedCount = 2 := hlocated.count
    obtain ⟨_, x, y, hsame, ⟨-, -, hresolve⟩, hcolumnOffset, hlineOffset, hnames⟩ :=
      @offsets_name_sample_iff _ product _ _ _ (.raw 0) .located image 1 2 hattempt
        (SegmentHeader.require_eq_ok_iff.mpr hdescribes.imageStructure)
        (SegmentHeader.require_eq_ok_iff.mpr hdescribes.navigation)
        (SegmentHeader.require_eq_ok_iff.mpr hdescribes.identification)
        (by decide : Channel.ir108.number ≠ Channel.hrv.number)
        ⟨rfl, Nat.le_refl 1, (by decide : 1 ≤ 2)⟩
        ⟨rfl, (by decide : 1 ≤ 2), by rw [hplanned]; exact (by decide : 2 ≤ 2 * 2)⟩
    rw [hopen] at hsame
    cases hsame
    have haddress : (twoSegmentsAlong factor).imageStructure.address 1 2 = ⟨0, 2⟩ :=
      (by decide : ImageStructure.address ⟨10, 2, 2, 0⟩ 1 2 = ⟨0, 2⟩)
    have hfactor : (twoSegmentsAlong factor).readNavigation.columnFactor = factor := rfl
    have hsouth : (twoSegmentsAlong factor).readNavigation.lineFactor < 0 :=
      (by decide : (-13642337 : Int32) < 0)
    rw [haddress] at hresolve hnames
    rw [hfactor] at hcolumnOffset hnames
    rw [if_pos hsouth, Nat.add_zero] at hlineOffset
    refine ⟨product, o, image, hattempt, ?_, x, y, hresolve, hcolumnOffset, hlineOffset, ?_⟩
    · rw [hopened.reader]
      rfl
    · rw [hnames, and_iff_right hsouth]
  refine ⟨?_, ?_⟩
  · obtain ⟨product, o, image, hattempt, hframe, x, y, hresolve, -, -, hnames⟩ :=
      hdecoded (-13642337)
    have hplace : o.reader.frame.resolve 1 2 = some ⟨0, 2⟩ := by rw [hframe]; decide
    obtain ⟨rfl, rfl⟩ := Frame.resolve_inj (hframe ▸ ProductLayout.isOfWords_frame _).fits hresolve hplace
    exact ⟨product, o, image, hattempt, hframe, hnames.mpr (by decide)⟩
  · obtain ⟨product, o, image, hattempt, hframe, x, y, hresolve, hcolumnOffset, hlineOffset,
      hnames⟩ := hdecoded 13642337
    have hplace : o.reader.frame.resolve 0 2 = some ⟨0, 2⟩ := by rw [hframe]; decide
    obtain ⟨rfl, rfl⟩ := Frame.resolve_inj (hframe ▸ ProductLayout.isOfWords_frame _).fits hresolve hplace
    exact ⟨product, o, image, hattempt, hframe, hplace, hcolumnOffset, hlineOffset,
      fun hgiven => absurd (hnames.mp hgiven).1 (by decide)⟩

end LocatedProduct

end SeviriImagery
