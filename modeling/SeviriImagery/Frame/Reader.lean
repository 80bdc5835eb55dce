import SeviriImagery.Frame
import SeviriImagery.Segment.Source

/-!
# Reading the pixels of a frame

A `FrameReader` reads counts from the segments of a frame, pixel by pixel or line by line.  Pixels
without a sample and pixels of absent segments read as 0, the count that says there is no data.

In a frame whose samples can be counted in sizes the strip of a line lies in one segment.  So
`FrameReader.line` asks for one segment at most, and it asks for it whenever the line has a strip at
all.
-/

namespace SeviriImagery

/-- A computation that may fail and that uses a cache of segments, which outlives a failure. -/
abbrev Reading (α : Type) := SegmentCache → Except Error α × SegmentCache

/-- The segments of a frame and where they come from. -/
structure FrameReader where
  frame : Frame
  shape : SegmentShape
  source : SegmentSource

namespace FrameReader

/-- The samples of a segment, or nothing if it is not there. -/
def segment (r : FrameReader) (index : Nat) : Reading (Option (Array Nat)) :=
  SegmentCache.segment r.source index

/-- The count at a place of a segment; an absent segment holds no data. -/
def countAt (samples : Option (Array Nat)) (offset : Nat) : Nat :=
  match samples with
  | some s => s.getD offset 0
  | none => 0

/-- The count of pixel `(x, y)`. -/
def sample (r : FrameReader) (x y : Nat) : Reading Nat := fun cache =>
  match r.frame.resolve x y with
  | none => (.ok 0, cache)
  | some address =>
      let (samples, next) := r.segment address.segment cache
      (samples.map (countAt · address.offset), next)

/-- The counts of line `y`, when the samples of its segment are known. -/
def lineOf (r : FrameReader) (y : Nat) (samples : Option (Array Nat)) : Array Nat :=
  Array.ofFn (n := r.frame.columns) fun x =>
    match r.frame.resolve x y with
    | none => 0
    | some address => countAt samples address.offset

/-- The counts of line `y`, which a row of `length` pixels is to hold. -/
def line (r : FrameReader) (y length : Nat) : Reading (Array Nat) := fun cache =>
  if length ≠ r.frame.columns ∨ r.frame.lines ≤ y then
    (.error (.value (.lineRead y r.frame.lines length)), cache)
  else if r.frame.lineHasSamples y then
    let (samples, next) := r.segment (r.frame.lineSegment y) cache
    (samples.map (r.lineOf y), next)
  else (.ok (r.lineOf y none), cache)

end FrameReader

end SeviriImagery
