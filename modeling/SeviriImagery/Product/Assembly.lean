import SeviriImagery.Calibration
import SeviriImagery.Frame.Reader
import SeviriImagery.Image
import SeviriImagery.Product.Location

/-!
# Decoding a product

The header of the first segment and the prologue say what the frame of a product is like; an area of
it is then read line by line, and its counts are kept or calibrated.  `LocatedProduct.attempt` goes
through the stages of a decoding one by one and notes each; whatever fails ends it.

Offsets in a header name a stored column and a stored line.  Where the stored order runs against
that of the frame, they are counted from the other side.
-/

namespace SeviriImagery

/-- What is wanted of a product. -/
structure DecodeOptions where
  /-- The pixels wanted; all if no area is given. -/
  area : Option PixelArea
  /-- The geographic area wanted. -/
  geoArea : Option GeoArea
  /-- Whether counts are calibrated. -/
  calibrate : Bool
  /-- What a pixel without data reads as. -/
  missingValue : Float32
  /-- Whether the decoding is cancelled before its first line. -/
  cancelled : Bool

namespace DecodeOptions

/-- All pixels, calibrated. -/
def standard : DecodeOptions := ⟨none, none, true, notANumber, false⟩

end DecodeOptions

namespace FrameReader

/-- Access to the segments of a product.  The coverage matters for the high-resolution channel
only. -/
def ofProduct (t : FileTree) (p : LocatedProduct) (coverage : Coverage) :
    Except Error FrameReader := do
  let image ← p.firstHeader.requireStructure.mapError Error.parse
  let navigation ← p.firstHeader.requireNavigation.mapError Error.parse
  let identification ← p.firstHeader.requireIdentification.mapError Error.parse
  let columns := image.columns.toNat
  let halves ←
    if identification.channel = Channel.hrv.number then
      ((HalfImages.ofCoverage coverage columns).mapError Error.format).map some
    else pure none
  return {
    frame := {
      segmentColumns := columns
      segmentLines := image.lines.toNat
      segments := p.plannedCount
      fromEast := navigation.columnFactor < 0
      fromSouth := navigation.lineFactor < 0
      halves }
    shape := image.shape
    source := .ofFiles t p.segments image.shape }

/-- The converted counts of a row. -/
def convertRow {β : Type} (convert : Nat → Except FormatError β) (counts : List Nat)
    (done : Array β) : Except Error (Array β) :=
  counts.foldlM (fun row count => ((convert count).mapError Error.format).map row.push) done

/-- The converted counts of the next `rows` lines from line `y` on, in the columns of an area,
behind those already done. -/
def readRows {β : Type} (r : FrameReader) (area : PixelArea) (cancelled : Bool)
    (convert : Nat → Except FormatError β) :
    (rows y : Nat) → (done : Array β) → Reading (Array β)
  | 0, _, done, cache => (.ok done, cache)
  | rows + 1, y, done, cache =>
      if cancelled then (.error .cancelled, cache)
      else
        let (line, next) := r.line y r.frame.columns cache
        let row := line.bind fun counts =>
          convertRow convert ((counts.extract area.x (area.x + area.width)).toList) done
        match row with
        | .ok more => readRows r area cancelled convert rows (y + 1) more next
        | .error e => (.error e, next)

/-- The converted counts of an area, line by line, each place `blank` until its line is read.

The lines are those from the first one to the one below the area, and there are none if that one has
gone round.  If the column behind the area has, the first line is read and the program ends where it
would take a row out of the line. -/
def readCells {β : Type} (r : FrameReader) (area : PixelArea) (cancelled : Bool)
    (convert : Nat → Except FormatError β) (blank : β) : Reading (Array β) := fun cache =>
  if area.spanLines = 0 then
    (.ok (Array.replicate (Size.mul area.width area.height) blank), cache)
  else if area.Fits then r.readRows area cancelled convert area.height area.y #[] cache
  else
    let (line, next) := r.readRows ⟨0, area.y, 0, 1⟩ cancelled convert 1 area.y #[] cache
    (line.bind fun _ => .error (.value (.reversedRow area.x area.right)), next)

/-- A count that fits into a bit depth. -/
def checkedCount (bitsPerPixel count : Nat) : Except FormatError Nat :=
  if count < 1 <<< bitsPerPixel then .ok count
  else .error (.sampleOutOfRange count (1 <<< bitsPerPixel))

/-- The pixels of an area of the frame. -/
def readArea (r : FrameReader) (area : PixelArea) (calibration : Calibration)
    (bitsPerPixel : Nat) (options : DecodeOptions) : Reading PixelData := fun cache =>
  let gain := calibration.gain
  let finish := fun (data : Except ValueError PixelData) =>
    (data.mapError Error.value).map fun d => { d with missingValue := options.missingValue }
  if calibration.keepsCounts then
    let (counts, next) :=
      r.readCells area options.cancelled (checkedCount bitsPerPixel) 0 cache
    (counts.bind fun values =>
      finish (PixelData.ofCounts area.width area.height (.counts (.ofDepth bitsPerPixel) values)
        bitsPerPixel gain), next)
  else
    let (values, next) :=
      r.readCells area options.cancelled calibration.apply notANumber cache
    (values.bind fun values => finish (PixelData.ofValues area.width area.height values gain.offset), next)

end FrameReader

namespace LocatedProduct

/-- What the header records and the prologue of a product say. -/
structure Opened where
  prologue : Prologue
  channel : Channel
  bitsPerPixel : Nat
  navigation : ImageNavigation
  identification : SegmentIdentification
  reader : FrameReader

/-- The coverage of a product of the high-resolution channel: the actual one, or the planned one if
there is no epilogue. -/
def coverage (t : FileTree) (p : LocatedProduct) (prologue : Prologue) : Noted Coverage :=
  match p.epilogue with
  | some path => Noted.lift ((t.readEpilogue path).map Epilogue.coverage)
  | none => do
      Noted.note (.plannedCoverage p.name.text)
      return prologue.plannedCoverage

/-- Reads the header records and the prologue of a product. -/
def openHeaders (t : FileTree) (p : LocatedProduct) : Noted Opened := do
  let header := p.firstHeader
  inFile p.firstPath header.checkImageData
  let prologue ← t.readPrologue p.prologue
  let identification ← header.requireIdentification.mapError Error.parse
  let channel ← ((Channel.ofNumber? identification.channel).elim
    (.error (.format (.unknownChannel identification.channel))) .ok : Except Error Channel)
  let coverage ← if channel = .hrv then p.coverage t prologue else pure .zero
  let reader ← FrameReader.ofProduct t p coverage
  let image ← header.requireStructure.mapError Error.parse
  let navigation ← header.requireNavigation.mapError Error.parse
  return ⟨prologue, channel, image.bitsPerPixel.toNat, navigation, identification, reader⟩

/-- The calibration that is wanted. -/
def calibration (o : Opened) (options : DecodeOptions) : Noted Calibration := do
  if options.calibrate then
    Noted.noteIf (o.prologue.radiometry.borrowsBands o.channel)
      (.borrowedBands o.prologue.radiometry.satellite.toNat)
    Noted.lift ((Calibration.ofChannel o.prologue.radiometry o.channel
      o.bitsPerPixel).mapError Error.format)
  else return .identity

/-- The offset of a frame of `size` columns or lines, from the offset in a header. -/
def frameOffset (reversed : Bool) (size : Nat) (offset : Int32) : Int32 :=
  if reversed then Int32.ofNat size - offset else offset

/-- What is known about the whole frame before any pixel is read. -/
def frameImage (p : LocatedProduct) (o : Opened) : Image :=
  let frame := o.reader.frame
  let image : Image := { Image.ofData .empty with
    time := o.prologue.acquired
    spacecraft := Spacecraft.toTable o.identification.spacecraft
    channelNumber := o.identification.channel
    longitude := o.navigation.longitude?.getD o.prologue.longitude
    columnFactor := o.navigation.columnFactor.abs
    lineFactor := o.navigation.lineFactor.abs
    columnOffset := frameOffset frame.fromEast frame.columns o.navigation.columnOffset
    lineOffset := frameOffset frame.fromSouth frame.lines o.navigation.lineOffset
    quality := if p.presentCount = p.plannedCount then .complete else .missingSegments }
  image.addToHistory ("decoded from " ++ p.name.text)

/-- The pixels that are wanted of a frame. -/
def requestedArea (frame : Image) (reader : FrameReader) (options : DecodeOptions) :
    Except Error PixelArea := do
  let (columns, lines) := (reader.frame.columns, reader.frame.lines)
  let area ← match options.area, options.geoArea with
    | some _, some _ => .error (.config .twoAreas)
    | some area, none => .ok area
    | none, some geo => frame.view.pixelArea geo columns lines
    | none, none => .ok ⟨0, 0, columns, lines⟩
  area.checkWithin columns lines
  return area

/-- The image of an area of a frame. -/
def areaImage (frame : Image) (area : PixelArea) (columns : Nat) (data : PixelData) : Image :=
  let image := { frame with
    data
    columnOffset := frame.columnOffset - Int32.ofNat area.x
    lineOffset := frame.lineOffset - Int32.ofNat area.y
    x0 := area.x
    y0 := area.y }
  if area.x ≠ 0 ∨ area.y ≠ 0 ∨ area.width ≠ columns then image.addToHistory ("area " ++ area.text)
  else image

/-- Reads an area, and notes the segments read. -/
def fill (p : LocatedProduct) (o : Opened) (calibration : Calibration) (frame : Image)
    (area : PixelArea) (options : DecodeOptions) : Noted Image :=
  let (data, cache) := o.reader.readArea area calibration o.bitsPerPixel options .fresh
  let reads := cache.tried.reverse.map Note.segmentRead
  match data with
  | .error e => ⟨reads, .error e⟩
  | .ok data =>
      ⟨reads ++ [.areaDecoded p.name.text area.width area.height cache.loads],
        .ok (areaImage frame area o.reader.frame.columns data)⟩

/-- A step of a decoding from one stage to the next, and what follows it. -/
def advance {α β : Type} (name : ProductName) (before after : Stage) (step : Noted α)
    (next : α → Noted β) : Noted β :=
  match step.result with
  | .ok a =>
      ⟨step.notes ++ .stageEntered name.text before after :: (next a).notes, (next a).result⟩
  | .error e =>
      ⟨step.notes ++ [.attemptFailed name.text e, .stageEntered name.text before .failed],
        .error e⟩

/-- An attempt to decode a product, which starts at the stage where the last one ended. -/
def attempt (t : FileTree) (p : LocatedProduct) (options : DecodeOptions) (start : Stage) :
    Noted Image :=
  advance p.name start .headersParsed (p.openHeaders t) fun o =>
  advance p.name .headersParsed .calibrated (calibration o options) fun c =>
  let frame := p.frameImage o
  advance p.name .calibrated .assembling (Noted.lift (requestedArea frame o.reader options))
    fun area =>
  advance p.name .assembling .complete (p.fill o c frame area options) pure

/-- The stage at which an attempt ends. -/
def finalStage (result : Noted Image) : Stage := if result.result.isOk then .complete else .failed

end LocatedProduct

/-- Finds a product and decodes it. -/
def FileTree.decode (t : FileTree) (name : ProductName) (options : DecodeOptions) :
    Noted Image := do
  let product ← t.locate name
  product.attempt t options .located

end SeviriImagery
