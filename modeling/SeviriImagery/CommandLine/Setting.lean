import SeviriImagery.Area.Request
import SeviriImagery.CommandLine.Refusal
import SeviriImagery.Decimal.Literal
import SeviriImagery.Text.Fields

/-!
# The values of switches

A switch with its value is a `Setting`; `Switch.setting` reads the value.  Areas are four numbers
with commas between them, and paths may be anything but empty.
-/

namespace SeviriImagery.CommandLine

/-- A switch that was given, with its value. -/
inductive Setting where
  | area (a : PixelArea)
  | geo (a : GeoArea)
  | raw
  | bigEndian (path : String)
  | littleEndian (path : String)
  | verbose

/-- The switch of a setting. -/
def Setting.switch : Setting → Switch
  | .area _ => .area
  | .geo _ => .geo
  | .raw => .raw
  | .bigEndian _ => .bigEndian
  | .littleEndian _ => .littleEndian
  | .verbose => .verbose

/-- How a number begins and goes on in a list of numbers: a sign or none, digits, and perhaps a
point with digits or none behind it. -/
def isNumber (text : List Char) : Bool :=
  let digits := (Decimal.splitSign text).2
  !(digits.takeWhile Char.isDigit).isEmpty &&
    (match digits.dropWhile Char.isDigit with
      | [] => true
      | '.' :: places => places.all Char.isDigit
      | _ => false)

/-- Four numbers with commas between them, each read by `read`. -/
def fourNumbers? {α : Type} (read : List Char → Option α) (text : String) :
    Option (α × α × α × α) :=
  match Text.fields ',' text.toList with
  | [a, b, c, d] =>
      if isNumber a && isNumber b && isNumber c && isNumber d then do
        return (← read a, ← read b, ← read c, ← read d)
      else none
  | _ => none

/-- A whole number that is not negative and fits into 64 bits. -/
def naturalNumber? (text : List Char) : Option Nat :=
  let digits := if text.head? = some '+' then text.drop 1 else text
  if digits.isEmpty || !digits.all Char.isDigit then none
  else if Decimal.ofDigits digits < UInt64.size then some (Decimal.ofDigits digits) else none

/-- The pixel area that a text gives. -/
def pixelArea (text : String) : Except String PixelArea :=
  match fourNumbers? naturalNumber? text with
  | some (x, y, width, height) => .ok ⟨x, y, width, height⟩
  | none => .error
      "pixel area must be specified as 'X,Y,WIDTH,HEIGHT' where all are non-negative integers"

/-- The geographic area that a text gives. -/
def geoArea (text : String) : Except String GeoArea :=
  match fourNumbers? (fun t => (Decimal.Literal.ofText? t).map Decimal.Literal.toDouble) text with
  | some (south, north, west, east) =>
      (GeoArea.ofBounds ⟨south, north, west, east⟩).mapError Error.message
  | none => .error
      "geographic area must be specified as 'LATMIN,LATMAX,LONMIN,LONMAX' in degrees"

/-- The setting of a switch with a value; `none` for a switch that is no setting. -/
def Switch.setting (s : Switch) (value : String) : Except Fault (Option Setting) :=
  let path := fun (make : String → Setting) =>
    if value.isEmpty then Except.error (.valueRequired s.text) else .ok (some (make value))
  match s with
  | .area => ((pixelArea value).mapError (.invalidValue value s)).map fun a => some (.area a)
  | .geo => ((geoArea value).mapError (.invalidValue value s)).map fun a => some (.geo a)
  | .raw => .ok (some .raw)
  | .bigEndian => path .bigEndian
  | .littleEndian => path .littleEndian
  | .verbose => .ok (some .verbose)
  | .help | .version => .ok none

end SeviriImagery.CommandLine
