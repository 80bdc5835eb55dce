import SeviriImagery.Pixels
import SeviriImagery.Spacecraft
import SeviriImagery.SpaceView.Footprint

/-!
# Images

An image is its pixels with what is known about them: when, by which satellite, in which channel
and from where they were seen.  Columns run from west to east and lines from north to south.

Factors and offsets are words of 32 bits, as in the records that they come from, and so is what is
reckoned with them.

An image that is cropped remembers the place of its first pixel in the frame that it comes from,
and keeps its offsets in step, so that each of its pixels still looks at the same place.  Its
history has a line for every such step.
-/

namespace SeviriImagery

/-- Whether all planned segments went into an image. -/
inductive Quality where
  | complete
  | missingSegments
deriving DecidableEq, Repr

/-- Pixels and what is known about them. -/
structure Image where
  time : UtcTime
  /-- The satellite, by its number in the common code table. -/
  spacecraft : UInt16
  channelNumber : UInt8
  /-- The longitude below the satellite in degrees. -/
  longitude : Single
  columnFactor : Int32
  lineFactor : Int32
  /-- The column below the satellite. -/
  columnOffset : Int32
  /-- The line below the satellite. -/
  lineOffset : Int32
  /-- The column of the first pixel in the whole frame. -/
  x0 : Nat
  /-- The line of the first pixel in the whole frame. -/
  y0 : Nat
  quality : Quality
  /-- What was done to the image, a line for each step. -/
  history : List String
  data : PixelData

namespace Image

/-- An image of which only the pixels are known. -/
def ofData (data : PixelData) : Image :=
  ⟨.zero, Spacecraft.unknownInTable, 0, .zero, 0, 0, 0, 0, 0, 0, .complete, [], data⟩

/-- The width of an image. -/
def columns (i : Image) : Nat := i.data.columns

/-- The height of an image. -/
def lines (i : Image) : Nat := i.data.lines

/-- The channel of an image, if its number is known. -/
def channel? (i : Image) : Option Channel := Channel.ofNumber? i.channelNumber

/-- The history of an image as one text.  An empty first line leaves no trace. -/
def historyText (i : Image) : String :=
  i.history.foldl (fun text line => if text.isEmpty then line else text ++ "\n" ++ line) ""

/-- An image with a line more in its history. -/
def addToHistory (i : Image) (line : String) : Image := { i with history := i.history ++ [line] }

/-- How the pixels look at the Earth. -/
def view (i : Image) : SpaceView where
  longitude := i.longitude.value.toFloat
  columnFactor := Float.ofInt i.columnFactor.toInt
  lineFactor := Float.ofInt i.lineFactor.toInt
  columnOffset := Float.ofInt i.columnOffset.toInt
  lineOffset := Float.ofInt i.lineOffset.toInt

/-- The pixels of an area, with the offsets and the place in the frame that belong to them. -/
def crop (i : Image) (area : PixelArea) : Except Error Image := do
  area.checkWithin i.columns i.lines
  let data ← (i.data.crop area).mapError .value
  let cropped := { i with
    data
    columnOffset := i.columnOffset - Int32.ofNat area.x
    lineOffset := i.lineOffset - Int32.ofNat area.y
    x0 := Size.add i.x0 area.x
    y0 := Size.add i.y0 area.y }
  return cropped.addToHistory ("cropped to " ++ area.text)

/-- The pixels that cover the visible part of a geographic area. -/
def cropGeographic (i : Image) (area : GeoArea) : Except Error Image := do
  let pixels ← i.view.pixelArea area i.columns i.lines
  i.crop pixels

/-- The name of the channel, or its number if the channel is not known. -/
def channelText (i : Image) : String :=
  match i.channel? with
  | some c => c.name
  | none => "CH" ++ Text.zeroPadded 2 i.channelNumber.toNat

/-- The stem of a file name for the image: satellite, channel and time, and the area if it does
not begin at the corner of the frame. -/
def fileStem (i : Image) : String :=
  Spacecraft.name i.spacecraft ++ "_" ++ i.channelText ++ "_" ++ i.time.timing ++
    (if i.x0 ≠ 0 ∨ i.y0 ≠ 0 then "_" ++ (PixelArea.mk i.x0 i.y0 i.columns i.lines).text else "")

end Image

end SeviriImagery
