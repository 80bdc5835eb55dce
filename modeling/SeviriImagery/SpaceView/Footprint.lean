import SeviriImagery.SpaceView

/-!
# The pixels of a geographic area

The pixels that cover the visible part of a geographic area are found from points along its four
edges: those that are visible span a box of columns and lines, which is rounded to pixels and cut
to the image.

The box is computed over any `Coordinate`.  The program uses 64-bit numbers; nothing but the few
operations of the class enters, so what is said of the box can be said of exact numbers.
-/

namespace SeviriImagery

/-- What the box around some points needs of a column or a line. -/
class Coordinate (K : Type) where
  /-- The lesser of two. -/
  lesser : K → K → K
  /-- The greater of two. -/
  greater : K → K → K
  /-- Whether it is not left of the first pixel. -/
  reachesFirst : K → Bool
  /-- Whether it is left of the pixel with a number. -/
  isBefore : K → Nat → Bool
  /-- The nearest of the pixels up to one with a number, a half going away from zero. -/
  nearest : K → Nat → Nat

/-- The lesser of two numbers; one that is no number gives way. -/
def lesserFloat (a b : Float) : Float := if a.isNaN then b else if b < a then b else a

/-- The greater of two numbers; one that is no number gives way. -/
def greaterFloat (a b : Float) : Float := if a.isNaN then b else if a < b then b else a

/-- The integer nearest to a fraction, a half going up. -/
def Decimal.Ratio.nearest (a : Decimal.Ratio) : Nat :=
  (2 * a.numerator + a.denominator) / (2 * a.denominator)

/-- The nearest of the pixels up to one with a number.  Whatever lies left of the first pixel, and
what is no number, goes to the first. -/
def nearestFloat (x : Float) (last : Nat) : Nat :=
  let limit := (Float.ofNat last).toUInt64.toNat
  match x.toModel.unpack with
  | .finite .positive mantissa exponent _ =>
      min (Decimal.Ratio.scaled mantissa 2 exponent).nearest limit
  | .infinity .positive => limit
  | _ => 0

instance : Coordinate Float where
  lesser := lesserFloat
  greater := greaterFloat
  reachesFirst x := 0 ≤ x
  isBefore x n := x < Float.ofNat n
  nearest := nearestFloat

/-- The bounds of some columns and lines. -/
structure Box (K : Type) where
  left : K
  right : K
  top : K
  bottom : K

namespace Box

variable {K : Type} [Coordinate K]

/-- The box that holds one point. -/
def point (p : K × K) : Box K := ⟨p.1, p.1, p.2, p.2⟩

/-- The least box around a box and a point. -/
def extend (b : Box K) (p : K × K) : Box K :=
  ⟨Coordinate.lesser b.left p.1, Coordinate.greater b.right p.1,
    Coordinate.lesser b.top p.2, Coordinate.greater b.bottom p.2⟩

/-- A box, if there is one yet, and a point, if it is visible. -/
def cover (b : Option (Box K)) (p : Option (K × K)) : Option (Box K) :=
  match b, p with
  | b, none => b
  | none, some p => some (point p)
  | some b, some p => some (b.extend p)

/-- The least box around the visible ones of some points. -/
def around (points : List (Option (K × K))) : Option (Box K) := points.foldl cover none

/-- Whether the box touches an image. -/
def touches (b : Box K) (columns lines : Nat) : Bool :=
  Coordinate.reachesFirst b.right && Coordinate.reachesFirst b.bottom &&
    Coordinate.isBefore b.left columns && Coordinate.isBefore b.top lines

/-- The pixels from the nearest one to the left and top of a box to the nearest one to its right
and bottom. -/
def pixels (b : Box K) (columns lines : Nat) : PixelArea :=
  let x := Coordinate.nearest b.left (columns - 1)
  let y := Coordinate.nearest b.top (lines - 1)
  ⟨x, y, Coordinate.nearest b.right (columns - 1) - x + 1,
    Coordinate.nearest b.bottom (lines - 1) - y + 1⟩

/-- The pixels of an image that the visible ones of some points span. -/
def pixelsAround (points : List (Option (K × K))) (columns lines : Nat) : Option PixelArea :=
  match around points with
  | some b => if b.touches columns lines then some (b.pixels columns lines) else none
  | none => none

end Box

/-- The parts into which each edge of an area is divided. -/
def edgeParts : Nat := 64

/-- The points along the edges of an area, as latitudes and longitudes. -/
def GeoBounds.edgePoints (b : GeoBounds) : List (Float × Float) :=
  let latStep := (b.north - b.south) / Float.ofNat edgeParts
  let lonStep := (b.east - b.west) / Float.ofNat edgeParts
  (List.range (edgeParts + 1)).flatMap fun i =>
    let lat := b.south + latStep * Float.ofNat i
    let lon := b.west + lonStep * Float.ofNat i
    [(lat, b.west), (lat, b.east), (b.south, lon), (b.north, lon)]

/-- The pixels of an image that an area has if the points along its edges are seen as given. -/
def GeoArea.pixelsAround {K : Type} [Coordinate K] (area : GeoArea)
    (points : List (Option (K × K))) (columns lines : Nat) : Except Error PixelArea :=
  if columns = 0 ∨ lines = 0 then .error (.config (.emptyImage area.toGeoBounds))
  else
    match Box.pixelsAround points columns lines with
    | some pixels => .ok pixels
    | none => .error (.config (.notVisible area.toGeoBounds))

/-- The pixels of an image that cover the visible part of an area. -/
def SpaceView.pixelArea (view : SpaceView) (area : GeoArea) (columns lines : Nat) :
    Except Error PixelArea :=
  area.pixelsAround (area.edgePoints.map fun p => view.pixel p.1 p.2) columns lines

end SeviriImagery
