import SeviriImagery.Proofs.Image.Cropping
import SeviriImagery.Proofs.Product.Calibrated
import SeviriImagery.Proofs.Word.Floating

/-!
# Pixels without data

That a pixel has no data is said in several ways on its way into an image.  A frame has no sample
beside the strip of a line, a product may lack a segment, and a sample may be 0; a line has the
count 0 for all three (`FrameReader.getD_lineCounts_eq_zero_iff`).  An image of counts keeps the 0.
A table of temperatures has no number for it, and what is no number stays so when the baseline is
taken off (`notANumber_sub`).  Either way the pixel reads as the missing value
(`LocatedProduct.Opened.scaledAt_pixels`), and it does so in every part of the image that a crop keeps
(`Image.KeepsGaps.callAll`).

A crop to an area that does not fit, or a decoding of one, leaves an image whose pixels have no place
in the frame.  But then none of them has data, and no crop brings any back (`PixelData.IsBlank`).
-/

namespace SeviriImagery

namespace FrameReader

variable {r : FrameReader} {x y : Nat}

/-- The reasons why there is no data for a pixel of a frame. -/
inductive HasNoData (r : FrameReader) (x y : Nat) : Prop
  /-- The pixel lies beside the strip of its line. -/
  | beside (hbeside : r.frame.resolve x y = none)
  /-- Its segment is not there. -/
  | absent {a : SampleAddress} (hresolve : r.frame.resolve x y = some a)
      (habsent : r.source.offers a.segment = false)
  /-- Its sample is 0. -/
  | unwritten {a : SampleAddress} {samples : Array Nat} (hresolve : r.frame.resolve x y = some a)
      (hload : r.source.load a.segment = .ok samples) (hzero : samples.getD a.offset 0 = 0)

variable {counts : Array Nat}

/-- A pixel beside the strip of its line has the count 0. -/
theorem getD_lineCounts_beside (hline : r.lineCounts y = .ok counts) (hx : x < r.frame.columns)
    (hbeside : r.frame.resolve x y = none) : counts.getD x 0 = 0 := by
  obtain ⟨samples, rfl, -⟩ := exists_samples_of_lineCounts hline
  rw [getD_lineOf samples hx, countOf, hbeside]

/-- Any other pixel has the count that its segment has at its place. -/
theorem getD_lineCounts_of_resolve (hfits : r.frame.Fits) {a : SampleAddress}
    (hline : r.lineCounts y = .ok counts) (hresolve : r.frame.resolve x y = some a) :
    ∃ samples, r.source.segment a.segment = .ok samples ∧
      counts.getD x 0 = countAt samples a.offset := by
  obtain ⟨hsample, ha⟩ := (Frame.resolve_eq_some_iff hfits).mp hresolve
  obtain ⟨samples, rfl, hsegment, -⟩ := exists_samples_of_lineCounts hline
  refine ⟨samples, ?_, ?_⟩
  · rw [ha]
    exact hsegment (Frame.lineHasSamples_of_hasSample hsample)
  · rw [getD_lineOf samples (Frame.hasSample_iff.mp hsample).1, countOf, hresolve]

/-- **The count 0 says that there is no data**, and every other count says that there is. -/
theorem getD_lineCounts_eq_zero_iff (hfits : r.frame.Fits) (hline : r.lineCounts y = .ok counts)
    (hx : x < r.frame.columns) : counts.getD x 0 = 0 ↔ r.HasNoData x y := by
  constructor
  · intro hzero
    cases hresolve : r.frame.resolve x y with
    | none => exact .beside hresolve
    | some a =>
        obtain ⟨samples, hsegment, hcount⟩ := getD_lineCounts_of_resolve hfits hline hresolve
        cases samples with
        | none => exact .absent hresolve (SegmentSource.segment_eq_none_iff.mp hsegment)
        | some stored =>
            obtain ⟨-, hload⟩ := SegmentSource.segment_eq_some_iff.mp hsegment
            exact .unwritten hresolve hload (hcount.symm.trans hzero)
  · intro hnone
    cases hnone with
    | beside hbeside => exact getD_lineCounts_beside hline hx hbeside
    | absent hresolve habsent =>
        obtain ⟨samples, hsegment, hcount⟩ := getD_lineCounts_of_resolve hfits hline hresolve
        rw [SegmentSource.segment_eq_none_iff.mpr habsent] at hsegment
        cases hsegment
        exact hcount
    | unwritten hresolve hload hzero =>
        obtain ⟨samples, hsegment, hcount⟩ := getD_lineCounts_of_resolve hfits hline hresolve
        cases samples with
        | none => exact hcount
        | some stored =>
            obtain ⟨-, hsame⟩ := SegmentSource.segment_eq_some_iff.mp hsegment
            cases hload.symm.trans hsame
            exact hcount.trans hzero

variable {area : PixelArea} {cancelled : Bool} {c l : Nat}

/-- The count of a pixel of an area that fits is that of the pixel in its line. -/
theorem exists_line_of_areaCounts (hfits : area.Fits)
    (harea : area.isWithin r.frame.columns r.frame.lines)
    (hread : r.areaCounts area cancelled = .ok counts) (hc : c < area.width) (hl : l < area.height) :
    ∃ held, r.lineCounts (area.y + l) = .ok held ∧
      counts[l * area.width + c]? = some (held.getD (area.x + c) 0) := by
  obtain ⟨-, hheight, hinside, -⟩ := PixelArea.isWithin_iff.mp harea
  rw [areaCounts, readCells_of_fits hfits] at hread
  cases not_cancelled_of_readRows (Nat.ne_of_gt hheight) hread
  obtain ⟨pixels, hlength, hcounts, hpixels⟩ :=
    pixels_of_readRows (SegmentCache.agrees_fresh r.source) hinside hread
  obtain ⟨hplace, hcolumn, hrow⟩ := PixelData.place_spec hc hl
  rw [← hlength] at hplace
  have hpixel := hpixels _ hplace
  rw [hcolumn, hrow] at hpixel
  obtain ⟨held, hline, hvalue⟩ := exists_line_of_pixel hpixel
  refine ⟨held, hline, ?_⟩
  rw [hcounts, Array.empty_append, List.getElem?_toArray, List.getElem?_eq_getElem hplace]
  exact congrArg some (Except.ok.inj hvalue).symm

end FrameReader

/-- A pixel that reads as the missing value is not written as a whole number. -/
theorem PixelData.quantized_eq_none {d : PixelData} {c l : Nat}
    (hmissing : d.scaled c l = d.missingValue) : d.quantized c l = none := by
  have hseen : (d.missingValue.isNaN || d.missingValue == d.missingValue) = true := by
    cases hnan : d.missingValue.isNaN with
    | true => rfl
    | false => rw [(Float32.beq_self_iff _).mpr hnan]; rfl
  simp only [quantized, hmissing, hseen, if_true]

/-- Where the frame has no data, an image reads as a missing value, which it names. -/
structure Image.MarksGaps (i : Image) (r : FrameReader) (m : Float32) : Prop where
  missingValue : i.data.missingValue = m
  scaled : ∀ c l, c < i.columns → l < i.lines → r.HasNoData (i.x0 + c) (i.y0 + l) →
    i.data.scaled c l = m

namespace PixelData

/-- Pixels of which none has data: every place of their store reads as the missing value. -/
def IsBlank (d : PixelData) : Prop := ∀ k, d.scaledAt k = d.missingValue

variable {d e : PixelData} {a : PixelArea}

/-- The pixels of an area are gathered from those of the image, none if the area does not fit. -/
theorem exists_gather_of_crop (hcrop : d.crop a = .ok e) :
    ∃ length index, (¬a.Fits → length = 0) ∧ e = { d with
      columns := a.width
      lines := a.height
      samples := d.samples.gather length index } := by
  unfold crop at hcrop
  split at hcrop
  · cases hcrop
  · cases hcrop
    exact ⟨_, _, PixelArea.spanColumns_mul_spanLines, rfl⟩

theorem missingValue_of_crop (hcrop : d.crop a = .ok e) : e.missingValue = d.missingValue := by
  obtain ⟨_, _, -, rfl⟩ := exists_gather_of_crop hcrop
  rfl

/-- Pixels without data stay so. -/
theorem IsBlank.crop (hblank : d.IsBlank) (hcrop : d.crop a = .ok e) : e.IsBlank := by
  obtain ⟨length, index, -, rfl⟩ := exists_gather_of_crop hcrop
  intro k
  rw [scaledAt_gather, hblank]
  exact ite_self _

/-- The pixels of an area that does not fit have no data. -/
theorem isBlank_of_crop (hround : ¬a.Fits) (hcrop : d.crop a = .ok e) : e.IsBlank := by
  obtain ⟨length, index, hnone, rfl⟩ := exists_gather_of_crop hcrop
  intro k
  rw [scaledAt_gather, hnone hround, if_neg (Nat.not_lt_zero k)]

end PixelData

/-- An image that marks the gaps of a frame, and goes on doing so when it is cropped: its pixels have
their place in the frame, or none of them has data. -/
structure Image.KeepsGaps (i : Image) (r : FrameReader) (m : Float32) : Prop
    extends i.MarksGaps r m where
  placed : i.HasPlace ∨ i.data.IsBlank

namespace Image.KeepsGaps

variable {i j : Image} {r : FrameReader} {m : Float32} {a : PixelArea}

theorem of_isBlank (hmissing : i.data.missingValue = m) (hblank : i.data.IsBlank) :
    i.KeepsGaps r m :=
  ⟨⟨hmissing, fun _ _ _ _ _ => (hblank _).trans hmissing⟩, .inr hblank⟩

/-- A crop keeps the gaps marked. -/
theorem crop (hkeeps : i.KeepsGaps r m) (hcrop : i.crop a = .ok j) : j.KeepsGaps r m := by
  have hdata : i.data.crop a = .ok j.data := by
    obtain ⟨_, -, hrest⟩ := Outcome.bind_eq_ok_iff.mp hcrop
    obtain ⟨data, hdata, hrest⟩ := Outcome.bind_eq_ok_iff.mp hrest
    cases hrest
    exact Outcome.mapError_eq_ok_iff.mp hdata
  have hmissing : j.data.missingValue = m :=
    (PixelData.missingValue_of_crop hdata).trans hkeeps.missingValue
  rcases hkeeps.placed with ⟨hplaceColumns, hplaceLines⟩ | hblank
  · by_cases hfits : a.Fits
    · obtain ⟨hwithin, rfl⟩ := (crop_eq_ok_iff hfits).mp hcrop
      obtain ⟨-, -, hcolumns, hlines⟩ := PixelArea.isWithin_iff.mp hwithin
      have hx0 : Size.add i.x0 a.x = i.x0 + a.x := Size.add_of_lt (by omega)
      have hy0 : Size.add i.y0 a.y = i.y0 + a.y := Size.add_of_lt (by omega)
      refine ⟨⟨hmissing, fun c l hc hl hnone => ?_⟩, .inl ⟨?_, ?_⟩⟩
      · have hc : c < a.width := hc
        have hl : l < a.height := hl
        have hnone : r.HasNoData (Size.add i.x0 a.x + c) (Size.add i.y0 a.y + l) := hnone
        rw [hx0, hy0, Nat.add_assoc, Nat.add_assoc] at hnone
        exact (i.data.scaled_part hc hl).trans (hkeeps.scaled _ _ (by omega) (by omega) hnone)
      · show Size.add i.x0 a.x + a.width < Size.limit
        omega
      · show Size.add i.y0 a.y + a.height < Size.limit
        omega
    · exact of_isBlank hmissing (PixelData.isBlank_of_crop hfits hdata)
  · exact of_isBlank hmissing (hblank.crop hdata)

/-- So do any number of crops, whichever of them fail. -/
theorem callAll (hkeeps : i.KeepsGaps r m) (requests : List CropRequest) :
    (i.callAll requests).KeepsGaps r m := by
  induction requests generalizing i with
  | nil => exact hkeeps
  | cons request rest ih =>
      refine @ih (request.call.run i).2 ?_
      rcases request.call_cases i with ⟨_, next, -, -, hcrop, hcall⟩ | ⟨e, -, hcall⟩ <;> rw [hcall]
      · exact hkeeps.crop hcrop
      · exact hkeeps

end Image.KeepsGaps

namespace LocatedProduct

variable {t : FileTree} {p : LocatedProduct} {options : DecodeOptions}

/-- A place whose count is 0 reads as the missing value, be its count kept or looked up. -/
theorem Opened.scaledAt_pixels (o : Opened) {area : PixelArea} {counts : Array Nat} {k : Nat}
    (hzero : counts.getD k 0 = 0) :
    (o.pixels options area counts).scaledAt k = options.missingValue := by
  have hkept : ∀ gain : Gain, (PixelData.mk area.width area.height gain o.bitsPerPixel
      (PixelData.scalesExactly gain) options.missingValue
        (.counts (.ofDepth o.bitsPerPixel) counts)).scaledAt k = options.missingValue := by
    intro gain
    simp only [PixelData.scaledAt, hzero, PixelData.ofCount, if_true]
  unfold Opened.pixels
  split
  · exact hkept _
  · split
    · exact hkept _
    · have hvalue : (counts.map fun n =>
          o.prologue.radiometry.physical o.channel n - 145).getD k notANumber = notANumber := by
        rw [Array.getD_eq_getD_getElem?, Array.getElem?_map]
        rw [Array.getD_eq_getD_getElem?] at hzero
        cases hcount : counts[k]? with
        | none => rfl
        | some n =>
            rw [hcount, Option.getD_some] at hzero
            rw [hzero]
            exact notANumber_sub 145
      simp only [PixelData.scaledAt, hvalue, PixelData.ofValue, isNaN_notANumber, if_true]

/-- What is decoded keeps the gaps of its frame marked. -/
theorem keepsGaps_of_attempt {start : Stage} {image : Image}
    (hdecoded : (p.attempt t options start).result = .ok image) :
    ∃ o, (p.openHeaders t).result = .ok o ∧ image.KeepsGaps o.reader options.missingValue := by
  obtain ⟨o, area, counts, hopen, hwanted, hread, himage⟩ := attempt_eq_ok_iff.mp hdecoded
  obtain ⟨hwidth, hheight, -, hmissing⟩ := o.pixels_shape options area counts
  obtain ⟨hdata, hx0, hy0⟩ := areaImage_parts (p.frameImage o) area o.reader.frame.columns
    (o.pixels options area counts)
  rw [← himage] at hdata hx0 hy0
  have hcolumns : image.columns = area.width := (congrArg PixelData.columns hdata).trans hwidth
  have hlines : image.lines = area.height := (congrArg PixelData.lines hdata).trans hheight
  have hnamed : image.data.missingValue = options.missingValue := by rw [hdata, hmissing]
  refine ⟨o, hopen, ?_⟩
  by_cases hfits : area.Fits
  · have harea := isWithin_of_requestedArea hwanted hfits
    refine ⟨⟨hnamed, fun c l hc hl hnone => ?_⟩, .inl ⟨?_, ?_⟩⟩
    · rw [hcolumns] at hc
      rw [hlines] at hl
      rw [hx0, hy0] at hnone
      obtain ⟨-, -, hright, -⟩ := PixelArea.isWithin_iff.mp harea
      obtain ⟨held, hline, hcount⟩ := FrameReader.exists_line_of_areaCounts hfits harea hread hc hl
      rw [(FrameReader.getD_lineCounts_eq_zero_iff (isOfWords_of_openHeaders hopen).fits hline
        (by omega)).mpr hnone] at hcount
      have hwide : (o.pixels options area counts).index c l = l * area.width + c := by
        rw [PixelData.index, hwidth]
      rw [hdata, PixelData.scaled, hwide]
      exact o.scaledAt_pixels (by rw [Array.getD_eq_getD_getElem?, hcount, Option.getD_some])
    · rw [hx0, hcolumns]
      exact hfits.1
    · rw [hy0, hlines]
      exact hfits.2
  · obtain ⟨hsame, -⟩ | ⟨-, rfl⟩ := FrameReader.readCells_cases hread
    · exact absurd hsame hfits
    · refine .of_isBlank hnamed fun k => ?_
      rw [hnamed, hdata]
      refine o.scaledAt_pixels ?_
      rw [Array.getD_eq_getD_getElem?, Array.getElem?_replicate]
      split <;> rfl

/-- **A pixel without data reads as the missing value**, in an image of counts and in one of
temperatures, in any area that is decoded and after any crops of it.  It is not written as a whole
number either. -/
theorem attempt_reads_missing {start : Stage} {image : Image}
    (hdecoded : (p.attempt t options start).result = .ok image) :
    ∃ o, (p.openHeaders t).result = .ok o ∧ ∀ requests : List CropRequest,
      let kept := image.callAll requests
      ∀ c l, c < kept.columns → l < kept.lines →
        o.reader.HasNoData (kept.x0 + c) (kept.y0 + l) →
          kept.data.scaled c l = options.missingValue ∧ kept.data.quantized c l = none := by
  obtain ⟨o, hopen, hkeeps⟩ := keepsGaps_of_attempt hdecoded
  refine ⟨o, hopen, ?_⟩
  intro requests kept c l hc hl hnone
  have hkept : kept.KeepsGaps o.reader options.missingValue := hkeeps.callAll requests
  have hscaled := hkept.scaled c l hc hl hnone
  exact ⟨hscaled, PixelData.quantized_eq_none (hscaled.trans hkept.missingValue.symm)⟩

/-- Of a product of which only the second segment was written the northern half has data.  Its
temperatures are decoded and the southern half of the western column is cut out: in the corner that
was at the bottom there is no data. -/
theorem twoSegments_reads_missing :
    ∃ (product : LocatedProduct) (o : Opened) (image : Image),
      (product.attempt ((ProductLayout.twoSegments "d").performAll ProductLayout.oneDirectory
        ProductLayout.secondOnly).1 ⟨none, none, true, 0, false⟩ .located).result = .ok image ∧
      (product.openHeaders ((ProductLayout.twoSegments "d").performAll ProductLayout.oneDirectory
        ProductLayout.secondOnly).1).result = .ok o ∧
      o.reader.HasNoData 0 3 ∧
      (image.callAll [.pixels ⟨0, 2, 1, 2⟩]).data.scaled 0 1 = 0 ∧
      (image.callAll [.pixels ⟨0, 2, 1, 2⟩]).data.quantized 0 1 = none := by
  have hsound := @ProductLayout.isSound_twoSegments "d" rfl
  obtain ⟨p, hholds⟩ := ProductLayout.holdsProduct_oneDirectory hsound rfl
    (ProductLayout.fits_secondOnly "d")
  obtain ⟨product, o, _, hlocated, hopen, hopened, hdecode⟩ := hholds.attempt_raw hsound (by decide)
    ⟨2, by decide, Nat.le_refl 2, rfl⟩ 0
  -- the area and the counts are the same whether they are calibrated or not
  obtain ⟨_, area, counts, hsame, hwanted, hread, -⟩ := attempt_eq_ok_iff.mp hdecode
  rw [hopen] at hsame
  cases hsame
  have hframe : o.reader.frame = (ProductLayout.twoSegments "d").frame := by
    rw [hopened.reader]
    rfl
  have hnone : o.reader.HasNoData 0 3 := by
    have hresolve : o.reader.frame.resolve 0 3 = some ⟨0, 1⟩ := by
      rw [hframe]
      decide
    refine .absent hresolve (SegmentSource.segment_eq_none_iff.mp ?_)
    rw [hopened.reader]
    exact hholds.segment_source hsound (by decide) hlocated (by decide : 0 < 2)
  have hcolumns : o.reader.frame.columns = 2 := by rw [hframe]; rfl
  have hlines : o.reader.frame.lines = 4 := by rw [hframe]; rfl
  obtain ⟨-, rfl⟩ := (@requestedArea_whole_eq_ok_iff (.raw 0) _ _ _).mp hwanted
  obtain ⟨image, himage⟩ : ∃ image, image = areaImage (product.frameImage o)
    ⟨0, 0, o.reader.frame.columns, o.reader.frame.lines⟩ o.reader.frame.columns
      (o.pixels ⟨none, none, true, 0, false⟩
        ⟨0, 0, o.reader.frame.columns, o.reader.frame.lines⟩ counts) := ⟨_, rfl⟩
  have hshape : image.columns = 2 ∧ image.lines = 4 ∧ image.x0 = 0 ∧ image.y0 = 0 := by
    obtain ⟨hwidth, hheight, -⟩ := o.pixels_shape ⟨none, none, true, 0, false⟩
      ⟨0, 0, o.reader.frame.columns, o.reader.frame.lines⟩ counts
    rw [himage, areaImage_whole]
    exact ⟨hwidth.trans hcolumns, hheight.trans hlines, rfl, rfl⟩
  obtain ⟨hwidth, hheight, hx0, hy0⟩ := hshape
  have hattempt := (@attempt_eq_ok_iff _ product ⟨none, none, true, 0, false⟩ .located image).mpr
    ⟨o, _, counts, hopen, hwanted, hread, himage⟩
  obtain ⟨_, hsame, hmissing⟩ := attempt_reads_missing hattempt
  rw [hopen] at hsame
  cases hsame
  have hmissing := hmissing [.pixels ⟨0, 2, 1, 2⟩] 0 1
  have hcrop : image.callAll [.pixels ⟨0, 2, 1, 2⟩] =
      (image.part ⟨0, 2, 1, 2⟩).addToHistory (Image.cropLine ⟨0, 2, 1, 2⟩) := by
    show ((CropRequest.pixels ⟨0, 2, 1, 2⟩).call.run image).2 = _
    rw [CropRequest.call_run, CropRequest.outcome, Image.crop_eq (by decide), hwidth, hheight]
    rfl
  refine ⟨product, o, image, hattempt, hopen, hnone, ?_⟩
  rw [hcrop] at hmissing ⊢
  refine hmissing Nat.zero_lt_one Nat.one_lt_two ?_
  show o.reader.HasNoData (Size.add image.x0 0 + 0) (Size.add image.y0 2 + 1)
  rw [hx0, hy0]
  exact hnone

end LocatedProduct

end SeviriImagery
