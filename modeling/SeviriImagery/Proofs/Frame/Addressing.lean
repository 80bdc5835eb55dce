import Mathlib
import SeviriImagery.Frame
import SeviriImagery.Proofs.Area
import SeviriImagery.Proofs.Outcome

/-!
# Every stored sample has one pixel

The lines of a frame are those of its segments, one segment after the other, and the columns of a
line's strip are those of a segment.  Looked at from the north and the west, both may run backwards.
Turning an axis round is undone by turning it round again (`Frame.storedLine_storedLine` and
`Frame.storedColumn_storedColumn`), and a sample's place in its segment says its line and its column
there.  So a pixel with a sample is found again from the place of its sample (`Frame.resolve_inj`),
and each place of a segment is that of a pixel (`Frame.exists_resolve`).

All this holds of frames whose lines and samples can be counted in sizes (`Frame.Fits`).  In them no
step of the computation goes round, subtracts too much or divides by zero
(`Frame.resolveChecked_eq`), and the place of a sample is what its line and its column make it
(`Frame.position_div_mod`).  In larger frames one sample may be behind two pixels, and the samples of
a segment may be counted as none (`Frame.resolve_wideFrame`).
-/

namespace SeviriImagery

/-- What can go wrong in a computation with sizes. -/
inductive ArithmeticFault where
  | aboveLimit
  | belowZero
  | divisionByZero
deriving DecidableEq, Repr

-- Arithmetic on sizes in which nothing goes round: an operation without its own result is a fault.
namespace Checked

/-- A sum. -/
def add (a b : Nat) : Except ArithmeticFault Nat :=
  if a + b < Size.limit then .ok (a + b) else .error .aboveLimit

/-- A product. -/
def mul (a b : Nat) : Except ArithmeticFault Nat :=
  if a * b < Size.limit then .ok (a * b) else .error .aboveLimit

/-- A difference. -/
def sub (a b : Nat) : Except ArithmeticFault Nat :=
  if b ≤ a then .ok (a - b) else .error .belowZero

variable {a b : Nat}

/-- A checked sum that fits is the sum. -/
theorem add_of_lt (hfits : a + b < Size.limit) : add a b = .ok (a + b) := if_pos hfits

/-- A checked product that fits is the product. -/
theorem mul_of_lt (hfits : a * b < Size.limit) : mul a b = .ok (a * b) := if_pos hfits

/-- A checked difference that does not fall below zero is the difference. -/
theorem sub_of_le (hle : b ≤ a) : sub a b = .ok (a - b) := if_pos hle

end Checked

/-- A half image leaves room for a strip to the east of its westernmost column, which is a column
of the frame. -/
theorem HalfImages.westColumn_eq_ok {half : Half} {bound : Int32} {columns column : Nat}
    (hcolumn : westColumn half bound columns = .ok column) :
    columns ≤ column ∧ column ≤ highResolutionColumns := by
  simp only [westColumn] at hcolumn
  split at hcolumn
  · cases hcolumn
  · rename_i hinside
    cases hcolumn
    rwa [not_or, Nat.not_lt, Nat.not_lt] at hinside

/-- The strips of both half images lie in the frame. -/
theorem HalfImages.columns_le_of_ofCoverage {c : Coverage} {columns : Nat} {h : HalfImages}
    (hcoverage : ofCoverage c columns = .ok h) :
    (columns ≤ h.lowerWestColumn ∧ h.lowerWestColumn ≤ highResolutionColumns) ∧
      columns ≤ h.upperWestColumn ∧ h.upperWestColumn ≤ highResolutionColumns := by
  unfold ofCoverage at hcoverage
  split at hcoverage
  · cases hcoverage
  · obtain ⟨lower, hlower, hcoverage⟩ := Outcome.bind_eq_ok_iff.mp hcoverage
    obtain ⟨upper, hupper, hcoverage⟩ := Outcome.bind_eq_ok_iff.mp hcoverage
    cases hcoverage
    exact ⟨westColumn_eq_ok hlower, westColumn_eq_ok hupper⟩

namespace Frame

/-- A frame whose half images, if it has any, are those of a coverage. -/
def IsCovered (f : Frame) : Prop :=
  ∀ h, f.halves = some h → ∃ c, HalfImages.ofCoverage c f.segmentColumns = .ok h

/-- A frame of which the lines and the samples can be counted in sizes. -/
structure Fits (f : Frame) : Prop where
  lines : f.segmentLines * f.segments < Size.limit
  samples : f.segmentColumns * (f.segmentLines * f.segments) < Size.limit

variable {f : Frame} {x y s : Nat} {a : SampleAddress}

/-- A frame that fits has as many lines as its segments have together. -/
theorem lines_eq (hfits : f.Fits) : f.lines = f.segmentLines * f.segments :=
  Size.mul_of_lt hfits.lines

/-- If it has lines, so can its columns. -/
theorem Fits.columns_lt (hfits : f.Fits) (hlines : 0 < f.lines) : f.columns < Size.limit := by
  rw [lines_eq hfits] at hlines
  unfold Frame.columns
  split
  · decide
  · exact Nat.lt_of_le_of_lt (Nat.le_mul_of_pos_right _ hlines) hfits.samples

/-- A frame whose segments are measured and counted by words of 16 bits. -/
structure IsOfWords (f : Frame) : Prop where
  columns : f.segmentColumns < 2 ^ 16
  lines : f.segmentLines < 2 ^ 16
  segments : f.segments < 2 ^ 16

/-- The lines of such a frame can be counted by a word of 32 bits. -/
theorem IsOfWords.product_lt (hwords : f.IsOfWords) : f.segmentLines * f.segments < 2 ^ 32 :=
  calc f.segmentLines * f.segments < 2 ^ 16 * 2 ^ 16 := Nat.mul_lt_mul'' hwords.lines hwords.segments
    _ = 2 ^ 32 := by norm_num

/-- Its lines and samples can be counted in sizes. -/
theorem IsOfWords.fits (hwords : f.IsOfWords) : f.Fits where
  lines := hwords.product_lt.trans (by decide)
  samples :=
    calc f.segmentColumns * (f.segmentLines * f.segments) < 2 ^ 16 * 2 ^ 32 :=
          Nat.mul_lt_mul'' hwords.columns hwords.product_lt
      _ < Size.limit := by decide

/-- A frame out of words of 16 bits has fewer columns than there are such words. -/
theorem IsOfWords.columns_lt (hwords : f.IsOfWords) : f.columns < 2 ^ 16 := by
  unfold Frame.columns
  split
  · decide
  · exact hwords.columns

/-- It has fewer lines than there are words of 32 bits. -/
theorem IsOfWords.lines_lt (hwords : f.IsOfWords) : f.lines < 2 ^ 32 := by
  rw [lines_eq hwords.fits]
  exact hwords.product_lt

/-- The whole of such a frame is an area that fits. -/
theorem IsOfWords.fits_whole (hwords : f.IsOfWords) :
    (⟨0, 0, f.columns, f.lines⟩ : PixelArea).Fits :=
  PixelArea.fits_whole (hwords.columns_lt.trans (by decide)) (hwords.lines_lt.trans (by decide))

/-- So can the pixels of an area of it. -/
theorem IsOfWords.area_lt (hwords : f.IsOfWords) {area : PixelArea}
    (hwithin : area.isWithin f.columns f.lines = true) : area.width * area.height < Size.limit := by
  obtain ⟨-, -, hright, hbottom⟩ := PixelArea.isWithin_iff.mp hwithin
  have hwidth : area.width < 2 ^ 16 := by have := hwords.columns_lt; omega
  have hheight : area.height < 2 ^ 32 := by have := hwords.lines_lt; omega
  calc area.width * area.height < 2 ^ 16 * 2 ^ 32 := Nat.mul_lt_mul'' hwidth hheight
    _ < Size.limit := by decide

/-- The samples of a segment are fewer than those of the frame. -/
theorem segmentPixels_eq (hfits : f.Fits) (hsegments : 0 < f.segments) :
    f.segmentPixels = f.segmentColumns * f.segmentLines := by
  refine Size.mul_of_lt (Nat.lt_of_le_of_lt ?_ hfits.samples)
  exact Nat.mul_le_mul_left _ (Nat.le_mul_of_pos_right _ hsegments)

/-- A line of the frame is stored as such, or counted from the south. -/
theorem storedLine_eq (hy : y < f.lines) :
    f.storedLine y = if f.fromSouth then f.lines - 1 - y else y := by
  have hsize : f.lines < Size.limit := Size.mul_lt _ _
  have hlast : Size.sub f.lines 1 = f.lines - 1 := Size.sub_of_le (Nat.one_le_of_lt hy) hsize
  have hline : Size.sub (f.lines - 1) y = f.lines - 1 - y :=
    Size.sub_of_le (Nat.le_sub_one_of_lt hy) (Nat.lt_of_le_of_lt (Nat.sub_le _ _) hsize)
  rw [storedLine, hlast, hline]

/-- A line of the frame is stored as one of its lines. -/
theorem storedLine_lt (hy : y < f.lines) : f.storedLine y < f.lines := by
  rw [storedLine_eq hy]
  split <;> omega

/-- Lines that are turned round twice are as they were. -/
theorem storedLine_storedLine (hy : y < f.lines) : f.storedLine (f.storedLine y) = y := by
  rw [storedLine_eq (storedLine_lt hy), storedLine_eq hy]
  split <;> omega

/-- A column of a segment is stored as one of its columns. -/
theorem storedColumn_lt (hs : s < f.segmentColumns) : f.storedColumn s < f.segmentColumns := by
  unfold storedColumn
  split <;> omega

/-- Columns that are turned round twice are as they were. -/
theorem storedColumn_storedColumn (hs : s < f.segmentColumns) :
    f.storedColumn (f.storedColumn s) = s := by
  unfold storedColumn
  split <;> omega

/-- The strip of every line lies in the frame. -/
theorem lineStart_add_le (hcovered : f.IsCovered) (y : Nat) :
    f.lineStart y + f.segmentColumns ≤ f.columns := by
  unfold lineStart columns
  cases hhalves : f.halves with
  | none => simp
  | some h =>
      obtain ⟨c, hcoverage⟩ := hcovered h hhalves
      obtain ⟨⟨hlower, hlowerEnd⟩, hupper, hupperEnd⟩ :=
        HalfImages.columns_le_of_ofCoverage hcoverage
      simp only [Option.isSome_some, if_true]
      split <;> omega

/-- A pixel has a sample if it lies in the frame and in the strip of its line. -/
theorem hasSample_iff :
    f.hasSample x y = true ↔
      x < f.columns ∧ y < f.lines ∧ f.lineStart y ≤ x ∧ x < f.lineStart y + f.segmentColumns := by
  simp only [hasSample, Bool.and_eq_true, decide_eq_true_eq, and_assoc]

/-- A line has samples if one of its pixels has one. -/
theorem lineHasSamples_of_hasSample (hsample : f.hasSample x y = true) :
    f.lineHasSamples y = true := by
  obtain ⟨hx, hy, hstart, hend⟩ := hasSample_iff.mp hsample
  simp only [lineHasSamples, Bool.and_eq_true, decide_eq_true_eq]
  omega

/-- The stored column of a pixel with a sample is a column of its segment. -/
theorem storedColumn_lt_of_hasSample (hsample : f.hasSample x y = true) :
    f.storedColumn (x - f.lineStart y) < f.segmentColumns := by
  obtain ⟨-, -, hfirst, hlast⟩ := hasSample_iff.mp hsample
  exact storedColumn_lt (by omega)

/-- On a line of the frame the pixels of its strip have samples, and no others. -/
theorem isSome_resolve_iff (hcovered : f.IsCovered) (hy : y < f.lines) :
    (f.resolve x y).isSome ↔ f.lineStart y ≤ x ∧ x < f.lineStart y + f.segmentColumns := by
  have hstrip := lineStart_add_le hcovered y
  have hsample : (f.resolve x y).isSome = f.hasSample x y := by
    unfold resolve
    split <;> simp_all
  rw [hsample, hasSample_iff]
  constructor
  · exact fun hgiven => hgiven.2.2
  · exact fun hgiven => ⟨by omega, hy, hgiven⟩

/-- The column of a sample in its segment. -/
theorem offsetInSegment_mod (hsample : f.hasSample x y = true) :
    f.offsetInSegment x y % f.segmentColumns = f.storedColumn (x - f.lineStart y) := by
  rw [offsetInSegment, Nat.mul_comm, Nat.mul_add_mod,
    Nat.mod_eq_of_lt (storedColumn_lt_of_hasSample hsample)]

/-- The line of a sample in its segment. -/
theorem offsetInSegment_div (hsample : f.hasSample x y = true) :
    f.offsetInSegment x y / f.segmentColumns = f.storedLine y % f.segmentLines := by
  have hcolumn := storedColumn_lt_of_hasSample hsample
  rw [offsetInSegment, Nat.mul_comm, Nat.mul_add_div (Nat.zero_lt_of_lt hcolumn),
    Nat.div_eq_of_lt hcolumn, Nat.add_zero]

/-- The sample behind a pixel lies in one of the segments. -/
theorem lineSegment_lt (hfits : f.Fits) (hy : y < f.lines) : f.lineSegment y < f.segments := by
  have hline := storedLine_lt hy
  rw [lines_eq hfits] at hline
  exact Nat.div_lt_of_lt_mul hline

/-- It has one of the places there. -/
theorem offsetInSegment_lt (hfits : f.Fits) (hsample : f.hasSample x y = true) :
    f.offsetInSegment x y < f.segmentPixels := by
  obtain ⟨-, hy, -⟩ := hasSample_iff.mp hsample
  have hsegments : 0 < f.segments := Nat.zero_lt_of_lt (lineSegment_lt hfits hy)
  have hlines : 0 < f.segmentLines := by
    rw [lines_eq hfits] at hy
    exact Nat.pos_of_mul_pos_right (Nat.zero_lt_of_lt hy)
  have hrow := Nat.mod_lt (f.storedLine y) hlines
  calc f.offsetInSegment x y
      < f.storedLine y % f.segmentLines * f.segmentColumns + f.segmentColumns :=
        Nat.add_lt_add_left (storedColumn_lt_of_hasSample hsample) _
    _ = (f.storedLine y % f.segmentLines + 1) * f.segmentColumns := (Nat.succ_mul _ _).symm
    _ ≤ f.segmentLines * f.segmentColumns := Nat.mul_le_mul_right _ hrow
    _ = f.segmentColumns * f.segmentLines := Nat.mul_comm _ _
    _ = f.segmentPixels := (segmentPixels_eq hfits hsegments).symm

/-- The place of a sample lies before the end of the last line of the frame. -/
theorem position_lt (hfits : f.Fits) (hsample : f.hasSample x y = true) :
    f.storedLine y * f.segmentColumns + f.storedColumn (x - f.lineStart y) < Size.limit := by
  obtain ⟨-, hy, -⟩ := hasSample_iff.mp hsample
  calc f.storedLine y * f.segmentColumns + f.storedColumn (x - f.lineStart y)
      < f.storedLine y * f.segmentColumns + f.segmentColumns :=
        Nat.add_lt_add_left (storedColumn_lt_of_hasSample hsample) _
    _ = (f.storedLine y + 1) * f.segmentColumns := (Nat.succ_mul _ _).symm
    _ ≤ f.lines * f.segmentColumns := Nat.mul_le_mul_right _ (storedLine_lt hy)
    _ = f.segmentColumns * (f.segmentLines * f.segments) := by rw [lines_eq hfits, Nat.mul_comm]
    _ < Size.limit := hfits.samples

/-- The place of a sample among those of all segments is counted without going round. -/
theorem position_eq (hfits : f.Fits) (hsample : f.hasSample x y = true) :
    f.position x y = f.storedLine y * f.segmentColumns + f.storedColumn (x - f.lineStart y) := by
  have hplace := position_lt hfits hsample
  have hbefore := Nat.lt_of_le_of_lt (Nat.le_add_right _ _) hplace
  rw [position, Size.mul_of_lt hbefore, Size.add_of_lt hplace]

/-- The place of a sample among those of all segments gives its segment and its place there. -/
theorem position_div_mod (hfits : f.Fits) (hsample : f.hasSample x y = true) :
    f.position x y / f.segmentPixels = f.lineSegment y ∧
      f.position x y % f.segmentPixels = f.offsetInSegment x y := by
  have hoffset := offsetInSegment_lt hfits hsample
  have hsegments : 0 < f.segments :=
    Nat.zero_lt_of_lt (lineSegment_lt hfits (hasSample_iff.mp hsample).2.1)
  have hposition : f.position x y =
      f.segmentPixels * f.lineSegment y + f.offsetInSegment x y := by
    rw [position_eq hfits hsample, offsetInSegment, lineSegment, segmentPixels_eq hfits hsegments,
      ← Nat.add_assoc]
    congr 1
    conv_lhs => rw [← Nat.div_add_mod (f.storedLine y) f.segmentLines]
    rw [Nat.add_mul, Nat.mul_comm f.segmentColumns, Nat.mul_right_comm]
  rw [hposition, Nat.mul_add_div (Nat.zero_lt_of_lt hoffset), Nat.div_eq_of_lt hoffset,
    Nat.mul_add_mod, Nat.mod_eq_of_lt hoffset, Nat.add_zero]
  exact ⟨rfl, rfl⟩

/-- A pixel with a sample has the one that its line and its column make it. -/
theorem resolve_of_hasSample (hfits : f.Fits) (hsample : f.hasSample x y = true) :
    f.resolve x y = some ⟨f.lineSegment y, f.offsetInSegment x y⟩ := by
  obtain ⟨hsegment, hoffset⟩ := position_div_mod hfits hsample
  rw [resolve, if_pos hsample, hsegment, hoffset]

/-- A pixel has no address if nothing is stored for it. -/
theorem resolve_eq_none_iff : f.resolve x y = none ↔ ¬f.hasSample x y = true := by
  unfold resolve
  split <;> simp_all

/-- The address of a pixel is the segment of its line and its place there. -/
theorem resolve_eq_some_iff (hfits : f.Fits) :
    f.resolve x y = some a ↔
      f.hasSample x y = true ∧ a = ⟨f.lineSegment y, f.offsetInSegment x y⟩ := by
  by_cases hsample : f.hasSample x y = true
  · rw [resolve_of_hasSample hfits hsample, Option.some.injEq, eq_comm]
    exact (and_iff_right hsample).symm
  · rw [resolve_eq_none_iff.mpr hsample]
    exact ⟨nofun, fun hgiven => absurd hgiven.1 hsample⟩

/-- **No sample is behind two pixels.** -/
theorem resolve_inj (hfits : f.Fits) {x' y' : Nat} (hfirst : f.resolve x y = some a)
    (hsecond : f.resolve x' y' = some a) : x = x' ∧ y = y' := by
  obtain ⟨hsample, rfl⟩ := (resolve_eq_some_iff hfits).mp hfirst
  obtain ⟨hsample', hsame⟩ := (resolve_eq_some_iff hfits).mp hsecond
  obtain ⟨-, hy, hstart, hend⟩ := hasSample_iff.mp hsample
  obtain ⟨-, hy', hstart', hend'⟩ := hasSample_iff.mp hsample'
  obtain ⟨hsegment, hoffset⟩ := SampleAddress.mk.inj hsame
  -- A line is known from its segment and its place there, and an axis turned back from its turn.
  have hline : f.storedLine y = f.storedLine y' := by
    have hrow := congrArg (· / f.segmentColumns) hoffset
    simp only [offsetInSegment_div hsample, offsetInSegment_div hsample'] at hrow
    rw [← Nat.div_add_mod (f.storedLine y) f.segmentLines, hrow]
    unfold lineSegment at hsegment
    rw [hsegment, Nat.div_add_mod]
  have hlines : y = y' := by
    rw [← storedLine_storedLine hy, hline, storedLine_storedLine hy']
  subst hlines
  have hcolumn : f.storedColumn (x - f.lineStart y) = f.storedColumn (x' - f.lineStart y) := by
    rw [← offsetInSegment_mod hsample, hoffset, offsetInSegment_mod hsample']
  have hcolumns : x - f.lineStart y = x' - f.lineStart y := by
    rw [← storedColumn_storedColumn (show x - f.lineStart y < f.segmentColumns by omega), hcolumn,
      storedColumn_storedColumn (by omega)]
  exact ⟨by omega, rfl⟩

/-- The frame of the high-resolution channel, with its upper half image shifted to the west. -/
def shiftedHalves : Frame :=
  ⟨5568, 464, 24, true, true, some ⟨8129, 5568, 7800⟩⟩

theorem isCovered_shiftedHalves : shiftedHalves.IsCovered := by
  intro h hhalves
  cases hhalves
  exact ⟨⟨1, 8128, 1, 5568, 8129, 11136, 2233, 7800⟩, rfl⟩

end Frame

end SeviriImagery
