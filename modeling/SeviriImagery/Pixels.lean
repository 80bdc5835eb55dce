import SeviriImagery.Radiometry

/-!
# Pixel data and its scaling

The pixels of an image are stored either as raw counts, in cells of 8, 16 or 32 bits, or as
calibrated values.  A stored pixel becomes physical by a gain, a slope and an offset.  Count 0 and
the value NaN say that there is no data; such a pixel reads as the missing value that the image
names.

Physical values are often decimal fractions of few digits.  `PixelData.decimalDigits` is the number
of digits that tell the values of neighbouring counts apart, and `PixelData.quantized` gives a value
as a whole number of units of the last of them.
-/

namespace SeviriImagery

/-- The bits of the cells in which counts are stored. -/
inductive CellWidth where
  | bits8
  | bits16
  | bits32
deriving DecidableEq, Repr

/-- The least cells that hold counts of a bit depth. -/
def CellWidth.ofDepth (bitsPerPixel : Nat) : CellWidth :=
  if bitsPerPixel ≤ 8 then .bits8 else if bitsPerPixel ≤ 16 then .bits16 else .bits32

/-- Stored pixels, line by line. -/
inductive Samples where
  /-- Raw counts. -/
  | counts (width : CellWidth) (values : Array Nat)
  /-- Calibrated values less the offset. -/
  | values (values : Array Float32)

namespace Samples

/-- Counts of a bit depth without data. -/
def blank (bitsPerPixel length : Nat) : Samples :=
  .counts (.ofDepth bitsPerPixel) (Array.replicate length 0)

/-- The number of pixels. -/
def size : Samples → Nat
  | .counts _ stored => stored.size
  | .values stored => stored.size

/-- The pixels at the places that `index` gives, `length` of them. -/
def gather (s : Samples) (length : Nat) (index : Nat → Nat) : Samples :=
  match s with
  | .counts width stored =>
      .counts width (Array.ofFn (n := length) fun i => stored.getD (index i) 0)
  | .values stored => .values (Array.ofFn (n := length) fun i => stored.getD (index i) notANumber)

/-- Whether the pixels are calibrated values. -/
def areValues : Samples → Bool
  | .counts .. => false
  | .values _ => true

end Samples

/-- The pixels of an image and what turns them into physical values. -/
structure PixelData where
  columns : Nat
  lines : Nat
  gain : Gain
  bitsPerPixel : Nat
  /-- Whether physical values are whole numbers of units of the last decimal digit. -/
  scalesToInt : Bool
  /-- What a pixel without data reads as. -/
  missingValue : Float32
  samples : Samples

/-- A power with a natural exponent, by repeated squaring; `fuel` bounds the squarings. -/
def Float.raise (x : Float) (n : Nat) : (fuel : Nat) → (power : Float) → Float
  | 0, power => power
  | fuel + 1, power =>
      let power := if n % 2 = 1 then power * x else power
      if n / 2 = 0 then power else raise (x * x) (n / 2) fuel power

namespace PixelData

/-- Whether `value` is a whole number, up to a rounding error. -/
def isNearlyWhole (value : Float) : Bool := (value - value.round).abs < 1e-6

/-- The slope of the gain. -/
def slope (d : PixelData) : Float := d.gain.slope.value

/-- The offset of the gain. -/
def offset (d : PixelData) : Float := d.gain.offset.value

/-- Whether the physical values of all counts are whole numbers of units of one decimal digit. -/
def scalesExactly (gain : Gain) : Bool :=
  let slope := gain.slope.value
  let offset := gain.offset.value
  if slope ≤ 0 || !slope.isFinite || !offset.isFinite then false
  else
    let factor := Float.pow 10 (-slope.log10).round
    isNearlyWhole (slope * factor) && isNearlyWhole (offset * factor)

/-- Samples as the pixels of an image, which they must fill: their number is the size that the columns
and lines come to. -/
def make (columns lines : Nat) (samples : Samples) (bitsPerPixel : Nat) (gain : Gain)
    (scalesToInt : Bool) : Except ValueError PixelData :=
  if samples.size % Size.limit ≠ Size.mul columns lines then .error (.sampleCount samples.size columns lines)
  else .ok ⟨columns, lines, gain, bitsPerPixel, scalesToInt, notANumber, samples⟩

/-- Raw counts as the pixels of an image. -/
def ofCounts (columns lines : Nat) (samples : Samples) (bitsPerPixel : Nat) (gain : Gain) :
    Except ValueError PixelData :=
  if samples.areValues then .error .countsNotIntegers
  else make columns lines samples bitsPerPixel gain (scalesExactly gain)

/-- The bit depth of calibrated values. -/
def valueDepth : Nat := 32

/-- Calibrated values, from which `offset` has been taken off, as the pixels of an image. -/
def ofValues (columns lines : Nat) (values : Array Float32) (offset : Double) :
    Except ValueError PixelData :=
  make columns lines (.values values) valueDepth ⟨.one, offset⟩ false

/-- The pixels of an image without any. -/
def empty : PixelData := ⟨0, 0, .identity, valueDepth, false, notANumber, .values #[]⟩

/-- Whether the pixels are calibrated values. -/
def isPrescaled (d : PixelData) : Bool := d.samples.areValues

/-- The place of a pixel among the samples. -/
def index (d : PixelData) (column line : Nat) : Nat := line * d.columns + column

/-- The physical value of a stored number. -/
def scale (d : PixelData) (stored : Float) : Float32 := (stored * d.slope + d.offset).toFloat32

/-- The physical value of a stored count. -/
def ofCount (d : PixelData) (count : Nat) : Float32 :=
  if count = 0 then d.missingValue else d.scale (Float.ofNat count)

/-- The physical value of a stored value. -/
def ofValue (d : PixelData) (value : Float32) : Float32 :=
  if value.isNaN then d.missingValue else d.scale value.toFloat

/-- The physical value of the pixel at a place among the samples. -/
def scaledAt (d : PixelData) (i : Nat) : Float32 :=
  match d.samples with
  | .counts _ values => d.ofCount (values.getD i 0)
  | .values values => d.ofValue (values.getD i notANumber)

/-- The physical value of a pixel, or the missing value. -/
def scaled (d : PixelData) (column line : Nat) : Float32 := d.scaledAt (d.index column line)

/-- The stored count of a pixel; calibrated values have none. -/
def raw (d : PixelData) (column line : Nat) : Option Nat :=
  match d.samples with
  | .counts _ values => some (values.getD (d.index column line) 0)
  | .values _ => none

/-- The physical values of all pixels, line by line. -/
def allScaled (d : PixelData) : Array Float32 :=
  Array.ofFn (n := d.columns * d.lines) fun i => d.scaledAt i

/-- The word of the physical value of the pixel at a place among the samples.  Where a count has no
number for a value, its word tells of the gain. -/
def wordAt (d : PixelData) (i : Nat) : Single :=
  match d.samples with
  | .counts _ values =>
      let count := values.getD i 0
      if count = 0 then .ofValue d.missingValue
      else (Double.linear d.gain.slope d.gain.offset (Float.ofNat count)).narrowed
  | .values _ => .ofValue (d.scaledAt i)

/-- The words of the physical values of all pixels, line by line. -/
def allWords (d : PixelData) : Array Single :=
  Array.ofFn (n := d.columns * d.lines) fun i => d.wordAt i

/-- The pixels of an area, which must end inside the image.  The pixels are looked for from its first
column and line to the ones behind it, of which there are none if these go round. -/
def crop (d : PixelData) (area : PixelArea) : Except ValueError PixelData :=
  if d.columns < area.right ∨ d.lines < area.bottom then
    .error (.areaExceeds area d.columns d.lines)
  else
    let index := fun i =>
      (area.y + i / area.spanColumns) * d.columns + (area.x + i % area.spanColumns)
    .ok { d with
      columns := area.width
      lines := area.height
      samples := d.samples.gather (area.spanColumns * area.spanLines) index }

/-- The decimal digits kept of values that do not scale to whole numbers by themselves. -/
def prescaledDigits : Int := 2

/-- The decimal digits needed to write physical values as whole numbers. -/
def decimalDigits (d : PixelData) : Int :=
  if d.isPrescaled || d.slope ≤ 0 then prescaledDigits
  else
    let digits := -d.slope.log10
    max 0 (if d.scalesToInt then digits.round.toInt32.toInt else digits.ceil.toInt32.toInt + 1)

/-- The physical value of a pixel in units of the last decimal digit; none without data. -/
def quantized (d : PixelData) (column line : Nat) : Option Int :=
  let value := d.scaled column line
  if value.isNaN || value == d.missingValue then none
  else some (value.toFloat * Float.raise 10 d.decimalDigits.toNat 32 1).round.toInt64.toInt

end PixelData

end SeviriImagery
