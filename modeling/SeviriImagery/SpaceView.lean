import SeviriImagery.Area.Request
import SeviriImagery.Grid

/-!
# The view from space

A geostationary satellite sees the Earth under two angles, and a column and a line are linear in
them.  `SpaceView.pixel` finds the pixel that sees a place, if the satellite sees it at all, and
`SpaceView.geographic` the place that a pixel sees, if it sees the Earth.

The Earth is an ellipsoid of revolution; its constants are those of the image format.
-/

namespace SeviriImagery

/-- How the pixels of an image look at the Earth. -/
structure SpaceView where
  /-- The longitude below the satellite in degrees. -/
  longitude : Float
  columnFactor : Float
  lineFactor : Float
  columnOffset : Float
  lineOffset : Float

namespace SpaceView

/-- The distance of the satellite from the centre of the Earth in km. -/
def distance : Float := 42164.0

/-- The polar radius of the Earth in km. -/
def polarRadius : Float := 6356.5838

/-- The square of the polar radius over the square of the equatorial one. -/
def polarRatio : Float := 0.993243

/-- The part by which the square of the polar radius falls short of that of the equatorial one. -/
def flattening : Float := 0.00675701

/-- The square of the equatorial radius over the square of the polar one. -/
def equatorialRatio : Float := 1.006803

/-- The square of the distance less that of the equatorial radius. -/
def tangentSquare : Float := 1737121856.0

/-- Grid units of a scaling factor for each degree. -/
def unitsPerFactor : Float := 65536.0

/-- The column and the line that see a place, unless it is out of sight. -/
def pixel (view : SpaceView) (latitude longitude : Float) : Option (Float × Float) :=
  let lat := Grid.radians latitude
  let dlon := Grid.radians (longitude - view.longitude)
  let c := (polarRatio * lat.tan).atan
  let rl := polarRadius / (1.0 - flattening * (c.cos * c.cos)).sqrt
  let r1 := distance - rl * c.cos * dlon.cos
  let r2 := -rl * c.cos * dlon.sin
  let r3 := rl * c.sin
  let rn := (r1 * r1 + r2 * r2 + r3 * r3).sqrt
  if 0.0 ≤ r1 * (r1 - distance) + r2 * r2 + equatorialRatio * r3 * r3 then none
  else
    let x := Grid.degrees (-r2 / r1).atan
    let y := Grid.degrees (-r3 / rn).asin
    some (view.columnOffset + x * view.columnFactor / unitsPerFactor,
      view.lineOffset + y * view.lineFactor / unitsPerFactor)

/-- The latitude and the longitude that a column and a line see, unless they look past the
Earth. -/
def geographic (view : SpaceView) (column line : Float) : Option (Float × Float) :=
  let x := Grid.radians ((column - view.columnOffset) * unitsPerFactor / view.columnFactor)
  let y := Grid.radians ((line - view.lineOffset) * unitsPerFactor / view.lineFactor)
  let a := y.cos * y.cos + equatorialRatio * y.sin * y.sin
  let reach := distance * x.cos * y.cos
  let sd2 := reach * reach - a * tangentSquare
  if sd2 < 0.0 then none
  else
    let sn := (reach - sd2.sqrt) / a
    let s1 := distance - sn * x.cos * y.cos
    let s2 := sn * x.sin * y.cos
    let s3 := -sn * y.sin
    let sxy := (s1 * s1 + s2 * s2).sqrt
    some (Grid.degrees (equatorialRatio * s3 / sxy).atan,
      Grid.degrees (s2 / s1).atan + view.longitude)

end SpaceView

end SeviriImagery
