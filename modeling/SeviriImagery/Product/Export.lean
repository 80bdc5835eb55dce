import SeviriImagery.Image
import SeviriImagery.Product.Layout

/-!
# Writing images as products

An image of raw counts can be written as a product again, unless it is one of the high-resolution
channel.  Its lines are divided into segments of the usual height if they can be, and make up a
single segment if not.  The picture is turned by 180 degrees, as products store it from the south
and from the east, and factors and offsets are turned with it.

`Image.productFiles` makes all files of the product before `FileTree.writeImage` writes the first.
So an image that cannot be written leaves no file behind.
-/

namespace SeviriImagery

/-- The usual lines of a segment. -/
def usualSegmentLines : Nat := 464

/-- The greatest count of columns, lines or segments that a segment file can name. -/
def segmentFieldLimit : Nat := 65535

namespace Image

/-- The lines of each segment of an image of `lines` lines. -/
def segmentHeight (lines : Nat) : Nat :=
  if lines % usualSegmentLines = 0 then usualSegmentLines else lines

/-- The channel of an image that can be written as a product. -/
def exportChannel (i : Image) : Except Error Channel :=
  match i.channel? with
  | none => .error (.format (.unknownChannel i.channelNumber))
  | some c =>
      let height := segmentHeight i.lines
      if c = .hrv then .error (.value .highResolutionExport)
      else if i.data.isPrescaled || i.data.bitsPerPixel == 0 || 16 < i.data.bitsPerPixel then
        .error (.value .exportNeedsCounts)
      else if segmentFieldLimit < i.columns ∨ segmentFieldLimit < height ∨
          segmentFieldLimit < i.lines / height then
        .error (.value (.tooLargeForSegments i.columns i.lines))
      else .ok c

/-- The name of the product that an image is written as. -/
def productName (i : Image) (directory : String) (c : Channel) : Except Error ProductName :=
  let satellite := Spacecraft.fileName (Spacecraft.ofTable i.spacecraft)
  (ProductName.checked ⟨directory, "H", satellite, c.name, i.time.timing⟩).mapError .config

/-- What the files of an image's product have in common. -/
def productLayout (i : Image) (name : ProductName) (c : Channel) : ProductLayout where
  name
  spacecraft := Spacecraft.ofTable i.spacecraft
  channel := c
  bitsPerPixel := .ofNat i.data.bitsPerPixel
  segmentColumns := .ofNat i.columns
  segmentLines := .ofNat (segmentHeight i.lines)
  plannedEnd := .ofNat (i.lines / segmentHeight i.lines)
  columnFactor := -i.columnFactor
  lineFactor := -i.lineFactor
  columnOffset := Int32.ofNat i.columns - i.columnOffset
  lineOffset := Int32.ofNat i.lines - i.lineOffset
  longitude := i.longitude
  time := i.time
  dataFormat := nativeFormat

/-- The radiometry that an image knows of: the gain of its own channel. -/
def ownRadiometry (i : Image) (c : Channel) : Radiometry where
  satellite := Spacecraft.ofTable i.spacecraft
  gains := .ofFn fun index => if index = c.index then i.data.gain else .identity

/-- The prologue of an image's product. -/
def prologue (i : Image) (radiometry : Radiometry) : Prologue where
  satellite := Spacecraft.ofTable i.spacecraft
  acquired := i.time
  longitude := i.longitude
  plannedCoverage := .zero
  radiometry := radiometry

/-- The counts of a segment, counted from zero, in the order in which they are stored. -/
def storedSamples (i : Image) (height segment : Nat) : Array Nat :=
  Array.ofFn (n := i.columns * height) fun k =>
    let line := segment * height + k / i.columns
    let column := k % i.columns
    (i.data.raw (i.columns - 1 - column) (i.lines - 1 - line)).getD 0 % 65536

/-- The files of the segments of an image's product. -/
def segmentFiles (i : Image) (layout : ProductLayout) : Except Error (List NewFile) :=
  let height := segmentHeight i.lines
  (List.range (i.lines / height)).mapM fun segment =>
    layout.segmentFile (.ofNat (segment + 1)) (i.storedSamples height segment)

/-- The name of the product that an image is written as, and its files. -/
def productFiles (i : Image) (directory : String) (radiometry : Option Radiometry) :
    Except Error (ProductName × List NewFile) := do
  let c ← i.exportChannel
  let name ← i.productName directory c
  let layout := i.productLayout name c
  let prologue ← layout.prologueFile (i.prologue (radiometry.getD (i.ownRadiometry c)))
  let epilogue := layout.epilogueFile ⟨.zero⟩
  let segments ← i.segmentFiles layout
  return (name, prologue :: epilogue :: segments)

end Image

/-- Writes an image as a product, and gives the product's name. -/
def FileTree.writeImage (t : FileTree) (i : Image) (directory : String)
    (radiometry : Option Radiometry) : FileTree × Noted ProductName :=
  match i.productFiles directory radiometry with
  | .error e => (t, .lift (.error e))
  | .ok (name, files) =>
      let (next, written) := t.storeAll files
      (next, do
        written
        Noted.note (.productWritten name.text (i.lines / Image.segmentHeight i.lines))
        return name)

end SeviriImagery
