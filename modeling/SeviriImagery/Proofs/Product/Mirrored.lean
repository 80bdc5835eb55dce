import SeviriImagery.Proofs.Product.Exported

/-!
# Images whose factors are not positive

An image is written with its picture turned by 180 degrees, and it is the signs of its factors that
say so to a reader.  A positive factor is written as a negative one, and the reader turns the
picture back along its side.  A factor of zero stays zero, and a negative one becomes positive: the
reader then takes the picture as it is stored.

So what comes back is mirrored along each side whose factor is not positive
(`Image.written_image_comes_back_mirrored`).  Images made of samples alone have factors of zero.
-/

namespace SeviriImagery

namespace Image

variable {i : Image} {c : Channel} {name : ProductName} {directory : String}
  {radiometry : Option Radiometry} {t : FileTree} {place : Place}

/-- Whether an image looks the same when it is mirrored along each side whose factor is not
positive. -/
def IsSymmetric (i : Image) : Prop :=
  ∀ x y, x < i.columns → y < i.lines →
    i.data.raw (placeBehind i.columnFactor i.columns x) (placeBehind i.lineFactor i.lines y) =
      i.data.raw x y

/-- The pixels of an image are those of another that is mirrored along each side whose factor is not
positive. -/
structure HasMirroredPixelsOf (back i : Image) : Prop where
  columns : back.columns = i.columns
  lines : back.lines = i.lines
  raw : ∀ x y, x < i.columns → y < i.lines → back.data.raw x y =
    i.data.raw (placeBehind i.columnFactor i.columns x) (placeBehind i.lineFactor i.lines y)

/-- A mirrored picture is the same just if it is symmetric. -/
theorem HasMirroredPixelsOf.hasPixelsOf_iff {back : Image} (hback : back.HasMirroredPixelsOf i) :
    back.HasPixelsOf i ↔ i.IsSymmetric := by
  constructor
  · intro hpixels x y hx hy
    rw [← hback.raw x y hx hy, hpixels.raw x y hx hy]
  · intro hsymmetric
    refine ⟨hback.columns, hback.lines, fun x y hx hy => ?_⟩
    rw [hback.raw x y hx hy, hsymmetric x y hx hy]

/-- An image with the counts that the files of another hold has the pixels of this other,
mirrored. -/
theorem IsExportable.hasMirroredPixelsOf_ofCountAt (hi : i.IsExportable c)
    (radiometry : Option Radiometry) (name : ProductName)
    (hcolumnFactor : i.columnFactor ≠ Int32.minValue) (hlineFactor : i.lineFactor ≠ Int32.minValue)
    (hcounts : ∀ x y count, x < i.columns → y < i.lines → i.data.raw x y = some count →
      count < 2 ^ i.data.bitsPerPixel) (gain : Gain) (missingValue : Float32) (frame : Image) :
    HasMirroredPixelsOf { frame with
      data := .ofCountAt (i.productLayout name c).segmentColumns.toNat
        ((i.productLayout name c).plannedEnd.toNat * (i.productLayout name c).segmentLines.toNat)
        (i.productLayout name c).bitsPerPixel.toNat gain missingValue
        ((i.productLayout name c).countAt (WriteCall.lastSamples (i.writeCalls c radiometry))) } i where
  columns := hi.toNat_segmentColumns name
  lines := hi.plannedLines name
  raw := by
    intro x y hx hy
    rw [← hi.countAt_eq_behind radiometry name hcolumnFactor hlineFactor hcounts hx hy]
    apply PixelData.raw_ofCountAt
    · rwa [hi.toNat_segmentColumns]
    · rwa [hi.plannedLines]

/-- **An image that is written comes back mirrored along each side whose factor is not positive.**
Let an image with pixels be written into an empty directory, with counts that its bits can hold and
a time since the epoch of the codes.

If a search comes through the directory, decoding the product without calibration gives an image of
the same size.  Each of its pixels is that of the first one, or the pixel opposite to it where a
factor is not positive; so it has the same pixels just if the first one is symmetric along these
sides.  If no search comes through the directory, nothing of the product is found. -/
theorem written_image_comes_back_mirrored (hwf : t.WellFormed)
    (hfolder : t.IsFolder directory place) (hempty : t.children place = [])
    (hcolumns : i.columns ≠ 0) (hlines : i.lines ≠ 0)
    (hcolumnFactor : i.columnFactor ≠ Int32.minValue) (hlineFactor : i.lineFactor ≠ Int32.minValue)
    (hcounts : ∀ x y count, x < i.columns → y < i.lines → i.data.raw x y = some count →
      count < 2 ^ i.data.bitsPerPixel)
    (hyear : epochYear ≤ i.time.year)
    (hwritten : (t.writeImage i directory radiometry).2.result = .ok name)
    (missingValue : Float32) :
    if Path.isSearchable directory then
      ∃ back, ((t.writeImage i directory radiometry).1.decode name
          (.raw missingValue)).result = .ok back ∧
        back.HasMirroredPixelsOf i ∧ (back.HasPixelsOf i ↔ i.IsSymmetric)
    else
      ((t.writeImage i directory radiometry).1.decode name (.raw missingValue)).result =
        .error (.locate (.noSuchFile (name.pattern .prologue))) := by
  obtain ⟨hdirectory, c, hi, hsound, hholds⟩ := holdsProduct_of_writeImage hwf hfolder hempty
    hcolumns hlines hyear hwritten
  by_cases hsearchable : Path.isSearchable directory
  · rw [if_pos hsearchable]
    rw [← hdirectory] at hsearchable
    have hplanned : 0 < (i.productLayout name c).plannedEnd.toNat := by
      rw [hi.toNat_plannedEnd]
      exact segmentCount_pos hlines
    have hfirst := hi.isSome_lastSamples_writeCalls radiometry name hplanned
    have hidentity : ∀ o product, (i.productLayout name c).IsOpened
        (t.writeImage i directory radiometry).1 product
        ((i.prologue (radiometry.getD (i.ownRadiometry c))).readAt i.time) o →
          (LocatedProduct.calibration o (.raw missingValue)).result =
            .ok Calibration.identity := fun _ _ _ => rfl
    obtain ⟨product, o, -, -, hdecode⟩ := hholds.decode_counts hsound hsearchable
      ⟨1, Nat.le_refl 1, hplanned, hfirst⟩ rfl rfl hidentity
    have hmirrored := hi.hasMirroredPixelsOf_ofCountAt radiometry name hcolumnFactor hlineFactor
      hcounts .identity missingValue { product.frameImage o with x0 := 0, y0 := 0 }
    exact ⟨_, hdecode, hmirrored, hmirrored.hasPixelsOf_iff⟩
  · rw [if_neg hsearchable]
    rw [← hdirectory, Bool.not_eq_true] at hsearchable
    exact hholds.decode_astray hsound.name hsearchable _

/-- The four pixels with a column factor of zero and a negative line factor. -/
def unturnedPixels : Image := { fourPixels with columnFactor := 0, lineFactor := -13642337 }

/-- The pixels are written into an empty directory, whatever their factors. -/
theorem writeImage_unturnedPixels :
    (ProductLayout.oneDirectory.writeImage unturnedPixels "d" none).2.result =
      .ok (fourPixelsName "d") := by
  have hfour := isExportable_fourPixels
  have hi : unturnedPixels.IsExportable .vis006 := ⟨hfour.channel, hfour.lower, hfour.counts,
    hfour.depth, hfour.columns, hfour.height, hfour.segments⟩
  have hname : unturnedPixels.productName "d" .vis006 = .ok (fourPixelsName "d") :=
    productName_fourPixels "d"
  have hcode : UtcTime.toCode ⟨2006, 11, 14, 12, 0, 0⟩ = .ok ⟨17849, 43200000⟩ := by cbv
  have hsound := hi.isSound hname rfl (by decide) (by decide)
  have hfolder : ProductLayout.oneDirectory.IsFolder "d" ["w", "d"] := ⟨rfl, rfl⟩
  exact hi.writeImage_eq_ok hname hsound hcode ProductLayout.wellFormed_oneDirectory hfolder rfl none

/-- The first of the four pixels comes back as the last one. -/
theorem unturnedPixels_come_back_mirrored :
    ∃ back, ((ProductLayout.oneDirectory.writeImage unturnedPixels "d" none).1.decode
        (fourPixelsName "d") (.raw notANumber)).result = .ok back ∧
      back.data.raw 0 0 = some 4 ∧ unturnedPixels.data.raw 0 0 = some 1 ∧
      ¬back.HasPixelsOf unturnedPixels := by
  have hback := @written_image_comes_back_mirrored unturnedPixels _ "d" none
    ProductLayout.oneDirectory ["w", "d"] ProductLayout.wellFormed_oneDirectory ⟨rfl, rfl⟩ rfl
    (by decide) (by decide) (by decide) (by decide) counts_fourPixels (by decide)
    writeImage_unturnedPixels notANumber
  rw [if_pos (by decide)] at hback
  obtain ⟨back, hdecode, hmirrored, hsame⟩ := hback
  have hfirst : back.data.raw 0 0 = some 4 := hmirrored.raw 0 0 (by decide) (by decide)
  refine ⟨back, hdecode, hfirst, rfl, fun hpixels => ?_⟩
  have hsymmetric := hsame.mp hpixels 0 0 (by decide) (by decide)
  exact absurd hsymmetric (by decide)

end Image

end SeviriImagery
