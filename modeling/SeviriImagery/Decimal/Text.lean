import SeviriImagery.Decimal.Shortest
import SeviriImagery.Text.Pad

/-!
# Decimal texts of binary numbers

Two manners of writing a number occur in this library.  A listing shows a number *plainly*, with no
exponent however large or small it is.  A message that quotes the bounds of an area shows them
*explicitly* as fractions, `-1.0` rather than `-1`, and turns to an exponent below `1e-4` and from
`1e16` on.  Both use the fewest digits that read back.

Sizes and longitudes are written with a fixed number of places instead: `fixed` rounds the exact
value, a half going to the even neighbour.
-/

namespace SeviriImagery.Decimal

/-- How the digits of a number are laid out. -/
structure Style where
  /-- The least number of digits after the point. -/
  leastPlaces : Nat
  /-- The places of a first digit that are written without an exponent; `none` for all. -/
  positional : Option (Int × Int)

/-- Whole numbers without a point, and never an exponent. -/
def plainStyle : Style := ⟨0, none⟩

/-- At least one place, and an exponent below `1e-4` and from `1e16` on. -/
def explicitStyle : Style := ⟨1, some (-3, 16)⟩

/-- A digit string with the point after its first `place` digits, zeros filled in on either side,
and at least `leastPlaces` digits after the point. -/
def withPoint (digits : String) (place : Int) (leastPlaces : Nat) : String :=
  let n := digits.length
  if place ≤ 0 then
    "0." ++ Text.padRight '0' leastPlaces (Text.filler '0' (-place).toNat 0 ++ digits)
  else
    let whole := place.toNat
    if n ≤ whole then
      let fraction := Text.filler '0' leastPlaces 0
      Text.padRight '0' whole digits ++ (if leastPlaces = 0 then "" else "." ++ fraction)
    else
      let cs := digits.toList
      String.ofList (cs.take whole) ++ "." ++
        Text.padRight '0' leastPlaces (String.ofList (cs.drop whole))

/-- A digit string with the point after its first digit, and the exponent that belongs to it. -/
def withExponent (digits : String) (place : Int) : String :=
  let cs := digits.toList
  let fraction := String.ofList (cs.drop 1)
  String.ofList (cs.take 1) ++ (if fraction.isEmpty then "" else "." ++ fraction) ++
    "e" ++ toString (place - 1)

/-- The digits of a decimal number in a style. -/
def Style.digits (style : Style) (s : Scaled) : String :=
  let digits := toString s.coefficient
  let place := s.exponent + digits.length
  match style.positional with
  | none => withPoint digits place style.leastPlaces
  | some (least, greatest) =>
      if s.coefficient = 0 ∨ (least ≤ place ∧ place ≤ greatest) then
        withPoint digits place style.leastPlaces
      else withExponent digits place

/-- The sign in front of a number. -/
def minus (negative : Bool) : String := if negative then "-" else ""

/-- The text of a number taken apart. -/
def Style.text (style : Style) : Parts → String
  | .nan => "NaN"
  | .infinite negative => minus negative ++ "inf"
  | .finite negative significand exponent beginsBinade =>
      minus negative ++ style.digits
        (if significand = 0 then ⟨0, 0⟩ else shortest significand exponent beginsBinade)

/-- A 64-bit number in plain style. -/
def plain (x : Float) : String := plainStyle.text (partsOfDouble x)

/-- A 32-bit number in plain style. -/
def plainSingle (x : Float32) : String := plainStyle.text (partsOfSingle x)

/-- A 64-bit number in explicit style. -/
def explicit (x : Float) : String := explicitStyle.text (partsOfDouble x)

/-- The whole number nearest to a fraction, a half going to the even neighbour. -/
def Ratio.roundToEven (r : Ratio) : Nat :=
  let n := r.floor
  let rest := 2 * (r.numerator - n * r.denominator)
  if rest < r.denominator ∨ (rest = r.denominator ∧ n % 2 = 0) then n else n + 1

/-- The text of a number without its sign, with `places` digits after the point. -/
def unsignedFixed (places : Nat) : Parts → String
  | .nan => "NaN"
  | .infinite _ => "inf"
  | .finite _ significand exponent _ =>
      let units := (Ratio.mul (.scaled significand 2 exponent) ⟨Nat.pow 10 places, 1⟩).roundToEven
      let digits := Text.zeroPadded (places + 1) units
      withPoint digits (digits.length - places : Nat) 0

/-- Whether a number bears a minus sign. -/
def Parts.isNegative : Parts → Bool
  | .nan => false
  | .infinite negative => negative
  | .finite negative _ _ _ => negative

/-- A number with `places` digits after the point. -/
def fixed (places : Nat) (x : Float) : String :=
  let p := partsOfDouble x
  minus p.isNegative ++ unsignedFixed places p

/-- A number with its sign always written, `places` digits after the point, and zeros between sign
and digits up to `width` characters in all.  What is no number has no sign. -/
def signedFixedSingle (width places : Nat) (x : Float32) : String :=
  let p := partsOfSingle x
  let sign := match p with
    | .nan => ""
    | p => if p.isNegative then "-" else "+"
  sign ++ Text.padLeft '0' (width - sign.length) (unsignedFixed places p)

end SeviriImagery.Decimal
