import SeviriImagery.Coverage
import SeviriImagery.Error
import SeviriImagery.Word.Size

/-!
# Frames

The segments of a product, one after the other, make up a frame.  A frame is looked at with north
up and west to the left; its segments are stored line by line, but often from the south and from the
east.  `Frame.resolve` finds the stored sample behind a pixel, so it takes both turns back.

Segments of the high-resolution channel are narrower than its frame.  Each line has a strip of
samples, and the two half images may have theirs at different columns; a pixel beside the strip of
its line has no sample.

Lines and samples are counted in sizes, and so is the place of a sample among those of all segments.
In a frame with more samples than there are sizes that count goes round.  `Frame.lineSegment` and
`Frame.offsetInSegment` say where a sample is without such a count.
-/

namespace SeviriImagery

/-- Columns of the frame of the high-resolution channel. -/
def highResolutionColumns : Nat := 11136

/-- Where the strips of the two half images lie, in lines counted from one at the south and columns
counted from one at the east. -/
structure HalfImages where
  /-- The southernmost line of the upper half image. -/
  upperSouthLine : Nat
  /-- The westernmost column of the lower half image. -/
  lowerWestColumn : Nat
  /-- The westernmost column of the upper half image. -/
  upperWestColumn : Nat
deriving DecidableEq, Repr

namespace HalfImages

/-- The westernmost column of a half image, which must leave room for a strip to the east of it
and must be a column of the frame. -/
def westColumn (half : Half) (bound : Int32) (columns : Nat) : Except FormatError Nat :=
  let column := bound.toInt.toNat
  if column < columns ∨ highResolutionColumns < column then
    .error (.geometryMismatch (.westColumn half column columns highResolutionColumns))
  else .ok column

/-- The half images that a coverage describes, for strips of `columns` columns. -/
def ofCoverage (c : Coverage) (columns : Nat) : Except FormatError HalfImages :=
  if c.upperSouthLine.toInt < 1 then
    .error (.geometryMismatch (.upperSouthLine c.upperSouthLine.toInt))
  else do
    let lower ← westColumn .lower c.lowerWestColumn columns
    let upper ← westColumn .upper c.upperWestColumn columns
    return ⟨c.upperSouthLine.toInt.toNat, lower, upper⟩

end HalfImages

/-- How the segments of a product make up a frame. -/
structure Frame where
  /-- Columns of a segment. -/
  segmentColumns : Nat
  /-- Lines of a segment. -/
  segmentLines : Nat
  /-- Segments planned. -/
  segments : Nat
  /-- Whether the columns of a line are stored from the east. -/
  fromEast : Bool
  /-- Whether lines are stored from the south. -/
  fromSouth : Bool
  /-- The half images of the high-resolution channel. -/
  halves : Option HalfImages
deriving DecidableEq, Repr

/-- The place of a stored sample. -/
structure SampleAddress where
  /-- The segment, counted from zero. -/
  segment : Nat
  /-- The place of the sample in it. -/
  offset : Nat
deriving DecidableEq, Repr

namespace Frame

/-- The samples of a segment. -/
def segmentPixels (f : Frame) : Nat := Size.mul f.segmentColumns f.segmentLines

/-- The lines of a frame. -/
def lines (f : Frame) : Nat := Size.mul f.segmentLines f.segments

/-- The columns of a frame. -/
def columns (f : Frame) : Nat :=
  if f.halves.isSome then highResolutionColumns else f.segmentColumns

/-- The stored line behind line `y` of the frame. -/
def storedLine (f : Frame) (y : Nat) : Nat :=
  if f.fromSouth then Size.sub (Size.sub f.lines 1) y else y

/-- The stored column behind column `s` of a strip. -/
def storedColumn (f : Frame) (s : Nat) : Nat := if f.fromEast then f.segmentColumns - 1 - s else s

/-- The first column of the strip of line `y`. -/
def lineStart (f : Frame) (y : Nat) : Nat :=
  match f.halves with
  | none => 0
  | some h =>
      highResolutionColumns -
        (if h.upperSouthLine ≤ Size.add (f.storedLine y) 1 then h.upperWestColumn
          else h.lowerWestColumn)

/-- Whether pixel `(x, y)` lies in the frame and in the strip of its line. -/
def hasSample (f : Frame) (x y : Nat) : Bool :=
  x < f.columns && y < f.lines && f.lineStart y ≤ x && x < f.lineStart y + f.segmentColumns

/-- The segment that holds line `y`. -/
def lineSegment (f : Frame) (y : Nat) : Nat := f.storedLine y / f.segmentLines

/-- The place in its segment of the sample behind pixel `(x, y)`. -/
def offsetInSegment (f : Frame) (x y : Nat) : Nat :=
  f.storedLine y % f.segmentLines * f.segmentColumns + f.storedColumn (x - f.lineStart y)

/-- The place of the sample behind pixel `(x, y)` among the samples of all segments. -/
def position (f : Frame) (x y : Nat) : Nat :=
  Size.add (Size.mul (f.storedLine y) f.segmentColumns) (f.storedColumn (x - f.lineStart y))

/-- The stored sample behind pixel `(x, y)`, if there is one. -/
def resolve (f : Frame) (x y : Nat) : Option SampleAddress :=
  if f.hasSample x y then
    some ⟨f.position x y / f.segmentPixels, f.position x y % f.segmentPixels⟩
  else none

/-- Whether line `y` has any sample. -/
def lineHasSamples (f : Frame) (y : Nat) : Bool :=
  y < f.lines && f.lineStart y < f.columns && 0 < f.segmentColumns

end Frame

end SeviriImagery
