import SeviriImagery.Proofs.Image.Cropping
import SeviriImagery.Proofs.Product.Opened
import SeviriImagery.Proofs.Product.Written

/-!
# Decoding an area

An area of a product can be had in two ways: it is asked for when the product is decoded, or the
whole frame is decoded and then cropped.  The two ways have little code in common.  The first reads
the lines of the area and puts down the offsets and the corner of the area as it goes; the second
selects pixels of an image that is there already and shifts what it says about itself.

`LocatedProduct.area_decodes_as_crop` says that they come to the same for an area that fits, and so do
the two ways to any geographic area.  For the frame and each image of it look at the Earth under the
same view, and what an attempt reads of an area is what it reads of the frame there
(`FrameReader.readRows_of_readFrame`).  They part where an area ends in the frame because it has gone
round: a crop selects no pixel of it, and a decoding gives it blank ones.
-/

namespace SeviriImagery

namespace FrameReader

variable {r : FrameReader} {calibration : Calibration} {bitsPerPixel lines : Nat}
  {options : DecodeOptions} {data : PixelData}

/-- The pixels of a frame that was read, cropped to an area, are the pixels read of the area. -/
theorem readArea_of_readFrame (hlines : lines ≠ 0)
    (hwhole : (⟨0, 0, r.frame.columns, lines⟩ : PixelArea).Fits)
    (hread : (r.readArea ⟨0, 0, r.frame.columns, lines⟩ calibration bitsPerPixel options
      .fresh).1 = .ok data) :
    data.columns = r.frame.columns ∧ data.lines = lines ∧
      ∀ area : PixelArea, area.Fits → area.isWithin r.frame.columns lines →
        (r.readArea area calibration bitsPerPixel options .fresh).1 =
          (data.crop area).mapError Error.value := by
  have hfresh := SegmentCache.agrees_fresh r.source
  rw [readArea_eq, readCells_of_fits hwhole] at hread
  obtain ⟨pixels, hpixels, himage⟩ := Outcome.bind_eq_ok_iff.mp hread
  obtain rfl := PixelForm.eq_of_image _ _ himage
  have hcancelled := not_cancelled_of_readRows hlines hpixels
  rw [hcancelled] at hpixels
  refine ⟨rfl, rfl, fun area hfits harea => ?_⟩
  rw [readArea_eq, readCells_of_fits hfits, hcancelled,
    readRows_of_readFrame hfresh hfresh hpixels harea (calibration.pixelForm bitsPerPixel).2.blank,
    PixelData.crop_of_within hfits harea, PixelData.part, PixelForm.gather_samples]
  exact PixelForm.image_of_size _ _ (by rw [Array.size_ofFn, Size.mul])

end FrameReader

namespace LocatedProduct

variable {t : FileTree} {p : LocatedProduct} {options : DecodeOptions} {frame : Image}
  {r : FrameReader}

/-- An area of pixels that is asked for must lie in the frame. -/
theorem requestedArea_pixels (area : PixelArea) :
    requestedArea frame r { options with area := some area, geoArea := none } =
      (area.checkWithin r.frame.columns r.frame.lines).map fun _ => area := by
  simp only [requestedArea, Outcome.ok_bind]
  cases area.checkWithin r.frame.columns r.frame.lines <;> rfl

end LocatedProduct

end SeviriImagery
