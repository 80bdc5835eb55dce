import SeviriImagery.Error

/-!
# Sources of segments

A source offers the segments of a product by their number, counted from zero.  Some may be absent.
The samples of a segment are loaded on demand, and loading may fail.

`SegmentCache` holds the segment loaded last.  Asked for that segment again, it loads nothing; asked
for another, it lets go of the one it holds first, so that nothing is held if loading fails.  It
remembers which loads were tried and how many succeeded.
-/

namespace SeviriImagery

/-- Segments that can be loaded. -/
structure SegmentSource where
  /-- The number of segments planned. -/
  count : Nat
  /-- Whether a segment is there. -/
  isPresent : Nat → Bool
  /-- The samples of a segment. -/
  load : Nat → Except Error (Array Nat)

/-- Whether the source has a segment. -/
def SegmentSource.offers (source : SegmentSource) (index : Nat) : Bool :=
  index < source.count && source.isPresent index

/-- What a cache holds: nothing, or the samples of one segment. -/
inductive HeldSegment where
  | empty
  | holding (index : Nat) (samples : Array Nat)

/-- The segment held, if there is one. -/
def HeldSegment.index? : HeldSegment → Option Nat
  | .empty => none
  | .holding index _ => some index

/-- A store for one segment. -/
structure SegmentCache where
  held : HeldSegment
  /-- The segments of which a load was tried, latest first. -/
  tried : List Nat
  /-- The loads that succeeded. -/
  loads : Nat

namespace SegmentCache

/-- A cache that was never used. -/
def fresh : SegmentCache := ⟨.empty, [], 0⟩

/-- Loads a segment in place of the one held. -/
def reload (source : SegmentSource) (index : Nat) (cache : SegmentCache) :
    Except Error (Array Nat) × SegmentCache :=
  match source.load index with
  | .ok samples =>
      (.ok samples, ⟨.holding index samples, index :: cache.tried, cache.loads + 1⟩)
  | .error e => (.error e, ⟨.empty, index :: cache.tried, cache.loads⟩)

/-- The samples of a segment that the source offers, loaded unless they are held. -/
def fetch (source : SegmentSource) (index : Nat) (cache : SegmentCache) :
    Except Error (Array Nat) × SegmentCache :=
  match cache.held with
  | .holding held samples =>
      if held = index then (.ok samples, cache) else reload source index cache
  | .empty => reload source index cache

/-- The samples of a segment, or nothing if the source does not offer it. -/
def segment (source : SegmentSource) (index : Nat) (cache : SegmentCache) :
    Except Error (Option (Array Nat)) × SegmentCache :=
  if source.offers index then
    let (result, next) := fetch source index cache
    (result.map some, next)
  else (.ok none, cache)

end SegmentCache

end SeviriImagery
