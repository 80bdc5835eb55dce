/-!
# Sizes on the grid

A scaling factor says how many grid units an angle spans: it is a count of `2 ^ -16` units per
microradian.  From it follow the diameter of the Earth's disc in grid units, and the size of a
pixel where the satellite stands overhead.  `diameter` rounds to a whole number, so a factor is not
recovered exactly from its diameter.
-/

namespace SeviriImagery.Grid

/-- The ratio of a circle's circumference to its diameter. -/
def pi : Float := 3.141592653589793

/-- An angle of degrees in radians. -/
def radians (degrees : Float) : Float := degrees * (pi / 180)

/-- An angle of radians in degrees. -/
def degrees (radians : Float) : Float := radians * (180 / pi)

/-- The equatorial radius of the Earth in km. -/
def earthRadius : Float := 6378.137

/-- The distance of the satellite from the centre of the Earth in km. -/
def orbitRadius : Float := 42164.0

/-- Grid units of the Earth's apparent diameter for each unit of a scaling factor. -/
def diameterPerFactor : Float :=
  (earthRadius / orbitRadius).asin * (1 / 32768) * 180 / pi

/-- The apparent diameter of the Earth in grid units. -/
def diameter (factor : Int) : Nat :=
  ((Float.ofInt factor).abs * diameterPerFactor).round.toUInt32.toNat

/-- A scaling factor under which the Earth has an apparent diameter. -/
def factorOfDiameter (diameter : Nat) : Int :=
  (Float.ofNat diameter / diameterPerFactor).round.toInt32.toInt

/-- The angle that one pixel spans, in degrees. -/
def pixelAngle (factor : Int) : Float := 65536 / (Float.ofInt factor).abs

/-- The height of the satellite above the equator in km. -/
def height : Float := orbitRadius - earthRadius

/-- The size in km of a pixel where the satellite stands overhead. -/
def pixelSize (factor : Int) : Float := height * (radians (pixelAngle factor)).tan

/-- A scaling factor under which a pixel has a size in km. -/
def factorOfPixelSize (size : Float) : Int :=
  (65536 / degrees (size / height).atan).round.toInt32.toInt

end SeviriImagery.Grid
