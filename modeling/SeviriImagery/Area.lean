import SeviriImagery.Decimal.Text
import SeviriImagery.Word.Size

/-!
# Areas of an image and of the Earth

A `PixelArea` is a rectangle of pixels, `x` and `y` counted from the north-west corner of the image.
A `GeoArea` is a rectangle of latitudes and longitudes in degrees; it carries the fact that its bounds
are in order (`GeoBounds.areOrdered`).

Where a rectangle of pixels ends is a sum of two sizes, and `PixelArea.endsWithin` looks at no more
than that.  The sum goes round if the rectangle is far enough out, so that one which lies nowhere near
an image can seem to end in it.  Only of areas that fit (`PixelArea.Fits`) is it true that they lie
inside (`PixelArea.isWithin`) if they end inside.
-/

namespace SeviriImagery

/-- A rectangle of pixels. -/
structure PixelArea where
  x : Nat
  y : Nat
  width : Nat
  height : Nat
deriving DecidableEq, Repr

namespace PixelArea

/-- Whether the area is not empty and lies inside an image. -/
def isWithin (a : PixelArea) (columns lines : Nat) : Bool :=
  a.width != 0 && a.height != 0 && a.x + a.width ≤ columns && a.y + a.height ≤ lines

/-- The column behind the area. -/
def right (a : PixelArea) : Nat := Size.add a.x a.width

/-- The line below the area. -/
def bottom (a : PixelArea) : Nat := Size.add a.y a.height

/-- Whether the area is not empty and ends inside an image. -/
def endsWithin (a : PixelArea) (columns lines : Nat) : Bool :=
  a.width != 0 && a.height != 0 && a.right ≤ columns && a.bottom ≤ lines

/-- Whether the column and the line behind the area are sizes. -/
def Fits (a : PixelArea) : Prop := a.x + a.width < Size.limit ∧ a.y + a.height < Size.limit

instance (a : PixelArea) : Decidable a.Fits := inferInstanceAs (Decidable (_ ∧ _))

/-- The columns from the first one up to the one behind the area; none if that one has gone round. -/
def spanColumns (a : PixelArea) : Nat := if a.x + a.width < Size.limit then a.width else 0

/-- The lines from the first one up to the one below the area; none if that one has gone round. -/
def spanLines (a : PixelArea) : Nat := if a.y + a.height < Size.limit then a.height else 0

/-- The size of an area and its north-west corner. -/
def text (a : PixelArea) : String :=
  toString a.width ++ "x" ++ toString a.height ++ "+" ++ toString a.x ++ "+" ++ toString a.y

end PixelArea

/-- The bounds of a geographic area in degrees, in any order. -/
structure GeoBounds where
  south : Float
  north : Float
  west : Float
  east : Float
deriving DecidableEq

namespace GeoBounds

/-- Whether the bounds are those of a geographic area: south before north and west before east,
on the globe. -/
def areOrdered (b : GeoBounds) : Bool :=
  b.south < b.north && b.west < b.east &&
    !(b.south < -90 || 90 < b.north || b.west < -180 || 180 < b.east)

/-- The bounds as a message about them quotes them. -/
def ranges (b : GeoBounds) : String :=
  "latitude " ++ Decimal.plain b.south ++ ".." ++ Decimal.plain b.north ++
    ", longitude " ++ Decimal.plain b.west ++ ".." ++ Decimal.plain b.east

/-- The bounds with their names. -/
def describe (b : GeoBounds) : String :=
  "GeoArea \x7b lat_min: " ++ Decimal.explicit b.south ++ ", lat_max: " ++ Decimal.explicit b.north ++
    ", lon_min: " ++ Decimal.explicit b.west ++ ", lon_max: " ++ Decimal.explicit b.east ++ " \x7d"

end GeoBounds

/-- A geographic area. -/
structure GeoArea extends GeoBounds where
  ordered : toGeoBounds.areOrdered = true

end SeviriImagery
