import SeviriImagery.Error

/-!
# Requests for areas

An area is asked for in pixels or in degrees.  `PixelArea.checkWithin` refuses the pixel areas that
are empty or do not end inside the image, and `GeoArea.ofBounds` the bounds that are not in order.
-/

namespace SeviriImagery

/-- Fails unless the area is not empty and ends inside an image. -/
def PixelArea.checkWithin (a : PixelArea) (columns lines : Nat) : Except Error Unit :=
  if a.endsWithin columns lines then .ok () else .error (.config (.notInside a columns lines))

/-- The area with these bounds, unless they are out of order. -/
def GeoArea.ofBounds (b : GeoBounds) : Except Error GeoArea :=
  if h : b.areOrdered = true then .ok ⟨b, h⟩ else .error (.config (.invalidBounds b))

end SeviriImagery
