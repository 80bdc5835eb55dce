import SeviriImagery.Proofs.Product.Area
import SeviriImagery.Proofs.Product.Calibrated

/-!
# What a history says of an area

The history of a decoded image begins with the name of its product.  A line with the area that was
decoded follows if the area begins elsewhere than the frame does or is not as wide
(`LocatedProduct.history_areaImage`).  Its height is not looked at.  So where an area has all columns
from the first line on, but not all lines, the history is that of the whole frame
(`LocatedProduct.area_told_iff`).

Names may have line breaks in them, and such a name can look like the line of an area.  Any other
cannot, as its line says that something was decoded.
-/

namespace SeviriImagery

namespace Text

/-- The lines of a text. -/
def lines (text : String) : List String := (fields '\n' text.toList).map String.ofList

/-- A line break between two texts keeps their lines apart. -/
theorem lines_append (a b : String) : lines (a ++ "\n" ++ b) = lines a ++ lines b := by
  have hbreak : "\n".toList = ['\n'] := rfl
  rw [lines, String.toList_append, String.toList_append, hbreak, List.append_assoc,
    List.singleton_append, fields_append, List.map_append]
  rfl

/-- A text without a line break is a line by itself. -/
theorem lines_of_not_mem {text : String} (htext : '\n' ∉ text.toList) : lines text = [text] := by
  rw [lines, fields_of_not_mem htext, List.map_singleton, String.ofList_toList]

end Text

/-- The lines of a history, as its text has them. -/
def Image.historyLines (i : Image) : List String := Text.lines i.historyText

/-- Where the pixels of an image lie in the frame that they come from. -/
def Image.rectangle (i : Image) : PixelArea := ⟨i.x0, i.y0, i.columns, i.lines⟩

/-- All pixels of a frame. -/
def Frame.whole (f : Frame) : PixelArea := ⟨0, 0, f.columns, f.lines⟩

namespace PixelArea

/-- Whether an area has all columns of a frame, from the first line on. -/
def IsTopOf (a : PixelArea) (f : Frame) : Prop := a.x = 0 ∧ a.y = 0 ∧ a.width = f.columns

instance (a : PixelArea) (f : Frame) : Decidable (a.IsTopOf f) :=
  inferInstanceAs (Decidable (_ ∧ _))

/-- A whole frame is the top of itself. -/
theorem isTopOf_whole (f : Frame) : f.whole.IsTopOf f := ⟨rfl, rfl, rfl⟩

/-- The line of a history for an area that was decoded. -/
def historyLine (a : PixelArea) : String := "area " ++ a.text

/-- The line that tells of an area is one line. -/
theorem not_mem_historyLine (a : PixelArea) : '\n' ∉ a.historyLine.toList := by
  have hnumber : ∀ n : Nat, '\n' ∉ (toString n).toList := by
    intro n hbreak
    rw [Nat.toString_eq_repr, Nat.toList_repr] at hbreak
    exact absurd (Nat.isDigit_of_mem_toDigits (by decide) (by decide) hbreak) (by decide)
  simp only [historyLine, text, String.toList_append, List.mem_append, hnumber]
  decide

end PixelArea

namespace LocatedProduct

variable {t : FileTree} {p : LocatedProduct} {options : DecodeOptions} {start : Stage}
  {image : Image}

/-- The line of a history for the product that was decoded. -/
def historyLine (p : LocatedProduct) : String := "decoded from " ++ p.name.text

/-- **The history of an area** has the line of the product, and that of the area unless the area is
as wide as the frame and begins with it. -/
theorem history_areaImage (p : LocatedProduct) (o : Opened) (area : PixelArea) (data : PixelData) :
    (areaImage (p.frameImage o) area o.reader.frame.columns data).history =
      if area.IsTopOf o.reader.frame then [p.historyLine] else [p.historyLine, area.historyLine] := by
  unfold areaImage
  by_cases htop : area.IsTopOf o.reader.frame
  · obtain ⟨hx, hy, hwidth⟩ := htop
    rw [if_neg (by simp [hx, hy, hwidth]), if_pos ⟨hx, hy, hwidth⟩]
    rfl
  · have helsewhere : area.x ≠ 0 ∨ area.y ≠ 0 ∨ area.width ≠ o.reader.frame.columns := by
      simpa only [PixelArea.IsTopOf, not_and_or] using htop
    rw [if_pos helsewhere, if_neg htop]
    rfl

/-- The text of such a history has the lines of the two, whatever line breaks are in the first. -/
theorem historyLines_areaImage (p : LocatedProduct) (o : Opened) (area : PixelArea)
    (data : PixelData) :
    (areaImage (p.frameImage o) area o.reader.frame.columns data).historyLines =
      if area.IsTopOf o.reader.frame then Text.lines p.historyLine
      else Text.lines p.historyLine ++ [area.historyLine] := by
  have hsome : p.historyLine.isEmpty = false := by
    simp [historyLine, String.isEmpty_eq_false_iff]
  rw [Image.historyLines, Image.historyText, history_areaImage]
  split
  · rfl
  · have hfirst : (if "".isEmpty then p.historyLine else "" ++ "\n" ++ p.historyLine) =
        p.historyLine := rfl
    rw [List.foldl_cons, List.foldl_cons, List.foldl_nil, hfirst, hsome, if_neg (by decide),
      Text.lines_append, Text.lines_of_not_mem area.not_mem_historyLine]

/-- A name without line breaks does not look like the line of an area. -/
theorem not_mem_lines_historyLine (hname : '\n' ∉ p.name.text.toList) (area : PixelArea) :
    area.historyLine ∉ Text.lines p.historyLine := by
  have hplain : '\n' ∉ p.historyLine.toList := by
    rw [historyLine, String.toList_append, List.mem_append, not_or]
    exact ⟨by decide, hname⟩
  rw [Text.lines_of_not_mem hplain, List.mem_singleton]
  intro hsame
  have hfirst := congrArg (fun line => line.toList.head?) hsame
  simp [PixelArea.historyLine, historyLine] at hfirst

/-- **When a history tells an area from the frame.**  The image that comes of an attempt has the
pixels of the area granted.  There is a line for the area exactly if it is not the whole frame and
is not made of all columns from the first line on either, unless the name of the product has line
breaks and looks like such a line. -/
theorem area_told_iff (hdecoded : (p.attempt t options start).result = .ok image) :
    ∃ o, (p.openHeaders t).result = .ok o ∧
      requestedArea (p.frameImage o) o.reader options = .ok image.rectangle ∧
      (image.rectangle.historyLine ∈ image.historyLines ↔
        (image.rectangle ≠ o.reader.frame.whole ∧ ¬image.rectangle.IsTopOf o.reader.frame) ∨
          image.rectangle.historyLine ∈ Text.lines p.historyLine) ∧
      ('\n' ∉ p.name.text.toList → image.rectangle.historyLine ∉ Text.lines p.historyLine) := by
  obtain ⟨o, area, counts, hopen, hwanted, -, himage⟩ := attempt_eq_ok_iff.mp hdecoded
  obtain ⟨hdata, hx, hy⟩ := areaImage_parts (p.frameImage o) area o.reader.frame.columns
    (o.pixels options area counts)
  obtain ⟨hwidth, hheight, -⟩ := o.pixels_shape options area counts
  rw [← himage] at hdata hx hy
  have hrectangle : image.rectangle = area := by
    rw [Image.rectangle, Image.columns, Image.lines, hx, hy, hdata, hwidth, hheight]
  rw [hrectangle]
  refine ⟨o, hopen, hwanted, ?_, fun hname => not_mem_lines_historyLine hname area⟩
  have hwhole : ¬area.IsTopOf o.reader.frame → area ≠ o.reader.frame.whole := by
    intro hnot hsame
    exact hnot (hsame ▸ PixelArea.isTopOf_whole o.reader.frame)
  rw [himage, historyLines_areaImage, and_iff_right_of_imp hwhole]
  by_cases htop : area.IsTopOf o.reader.frame
  · simp [htop]
  · simp [htop]

/-- Where a whole frame could be decoded, each of its areas can be. -/
theorem exists_attempt_area {o : Opened} (hopen : (p.openHeaders t).result = .ok o)
    (hframe : (p.attempt t { options with area := none, geoArea := none } start).result = .ok image)
    {area : PixelArea} (harea : area.isWithin o.reader.frame.columns o.reader.frame.lines) :
    ∃ part, (p.attempt t { options with area := some area, geoArea := none } start).result =
      .ok part := by
  obtain ⟨_, whole, counts, hsame, hwhole, hread, -⟩ := attempt_eq_ok_iff.mp hframe
  cases hopen.symm.trans hsame
  obtain ⟨hends, rfl⟩ := requestedArea_whole_eq_ok_iff.mp hwhole
  have hwords := isOfWords_of_openHeaders hopen
  have hfits : area.Fits := PixelArea.fits_of_isWithin (hwords.columns_lt.trans (by decide))
    (hwords.lines_lt.trans (by decide)) harea
  rw [FrameReader.areaCounts, FrameReader.readCells_of_fits hwords.fits_whole] at hread
  have hlines := (PixelArea.endsWithin_iff.mp hends).2.1
  have hcancelled := FrameReader.not_cancelled_of_readRows (Nat.ne_of_gt hlines) hread
  have hfresh := SegmentCache.agrees_fresh o.reader.source
  have hrows : (o.reader.readRows ⟨0, 0, o.reader.frame.columns, o.reader.frame.lines⟩ false
      Except.ok o.reader.frame.lines 0 #[] .fresh).1 = .ok counts := hcancelled ▸ hread
  have hpart := FrameReader.readRows_of_readFrame hfresh hfresh hrows harea 0
  rw [← FrameReader.readCells_of_fits hfits, ← hcancelled] at hpart
  refine ⟨_, attempt_eq_ok_iff.mpr ⟨o, area, _, hopen, ?_, hpart, rfl⟩⟩
  rw [requestedArea_pixels,
    PixelArea.checkWithin_eq_ok_iff.mpr (PixelArea.endsWithin_of_isWithin harea)]
  rfl

/-- Of a frame of two columns and four lines the first line leaves no line in the history, and the
second line does. -/
theorem lines_of_twoSegments_told :
    ∃ (product : LocatedProduct) (first second : Image),
      (product.attempt ((ProductLayout.twoSegments "d").performAll ProductLayout.oneDirectory
        ProductLayout.secondOnly).1 { DecodeOptions.raw notANumber with area := some ⟨0, 0, 2, 1⟩ }
          .located).result = .ok first ∧
      (product.attempt ((ProductLayout.twoSegments "d").performAll ProductLayout.oneDirectory
        ProductLayout.secondOnly).1 { DecodeOptions.raw notANumber with area := some ⟨0, 1, 2, 1⟩ }
          .located).result = .ok second ∧
      "area 2x1+0+0" ∉ first.historyLines ∧ "area 2x1+0+1" ∈ second.historyLines := by
  have hsound := @ProductLayout.isSound_twoSegments "d" rfl
  obtain ⟨p, hholds⟩ := ProductLayout.holdsProduct_oneDirectory hsound rfl
    (ProductLayout.fits_secondOnly "d")
  obtain ⟨product, o, frame, hlocated, hopen, hopened, hframe⟩ :=
    hholds.attempt_raw hsound (rfl : Path.isSearchable "d" = true)
      ⟨2, by decide, Nat.le_refl 2, rfl⟩ notANumber
  have hname : '\n' ∉ product.name.text.toList := by
    rw [hlocated.name]
    decide
  have hown : o.reader.frame = (ProductLayout.twoSegments "d").frame := by
    rw [hopened.reader]
    rfl
  have htold : ∀ area : PixelArea, area.isWithin 2 4 → ∃ image,
      (product.attempt ((ProductLayout.twoSegments "d").performAll ProductLayout.oneDirectory
        ProductLayout.secondOnly).1 { DecodeOptions.raw notANumber with area := some area }
          .located).result = .ok image ∧
      (area.historyLine ∈ image.historyLines ↔
        area ≠ (ProductLayout.twoSegments "d").frame.whole ∧
          ¬area.IsTopOf (ProductLayout.twoSegments "d").frame) := by
    intro area harea
    have hwithin : area.isWithin o.reader.frame.columns o.reader.frame.lines := by rwa [hown]
    obtain ⟨image, hdecoded⟩ :=
      @exists_attempt_area _ _ (.raw notANumber) _ _ _ hopen hframe area hwithin
    obtain ⟨_, hsame, hwanted, hiff, hplain⟩ := area_told_iff hdecoded
    cases hopen.symm.trans hsame
    rw [requestedArea_pixels, Outcome.map_eq_ok_iff] at hwanted
    obtain ⟨_, -, hrectangle⟩ := hwanted
    rw [← hrectangle, or_iff_left (hrectangle ▸ hplain hname), hown] at hiff
    exact ⟨image, hdecoded, hiff⟩
  obtain ⟨first, hfirst, hfirstTold⟩ := htold ⟨0, 0, 2, 1⟩ (by decide)
  obtain ⟨second, hsecond, hsecondTold⟩ := htold ⟨0, 1, 2, 1⟩ (by decide)
  refine ⟨product, first, second, hfirst, hsecond, ?_, ?_⟩
  · exact fun htop => absurd (hfirstTold.mp htop).2 (by decide)
  · exact hsecondTold.mpr (by decide)

end LocatedProduct

end SeviriImagery
