import SeviriImagery.CommandLine.Arguments

/-!
# What the command line shows

A product is shown as a list of its files, as a summary of what its headers say, or as the values of
its pixels, which may also be given as bytes.
-/

namespace SeviriImagery.CommandLine

/-- One line of a listing. -/
def listLine (label file : String) : String := Text.padLeft ' ' 8 label ++ " │ " ++ file ++ "\n"

/-- The files of a product. -/
def listing (p : LocatedProduct) : String :=
  let files := (p.segments.zipIdx 1).map fun s => listLine (toString s.2) (s.1.getD "-")
  listLine "segment" "file" ++ listLine "PRO" p.prologue ++ listLine "EPI" (p.epilogue.getD "-") ++
    String.join files

/-- The columns of the frame of a product in a channel. -/
def frameColumns (channel : Channel) (columns : Nat) : Nat :=
  if channel = .hrv then highResolutionColumns else columns

/-- What the headers of a product say. -/
def summary (p : LocatedProduct) (prologue : Prologue) : Except Error String := do
  let identification ← p.firstHeader.requireIdentification.mapError Error.parse
  let channel ← ((Channel.ofNumber? identification.channel).elim
    (.error (.format (.unknownChannel identification.channel))) .ok : Except Error Channel)
  let image ← p.firstHeader.requireStructure.mapError Error.parse
  let navigation ← p.firstHeader.requireNavigation.mapError Error.parse
  let satellite := Spacecraft.toTable identification.spacecraft
  let missing := if p.missing.isEmpty then "none" else ", ".intercalate (p.missing.map toString)
  let gain := prologue.radiometry.gain channel
  let lines := [
    ("Product:", p.name.text),
    ("Channel:", channel.name ++ " (" ++ toString channel.number.toNat ++ ")"),
    ("Spacecraft:", Spacecraft.name satellite ++ " (HRIT " ++
      toString identification.spacecraft.toNat ++ ", WMO " ++ toString satellite.toNat ++ ")"),
    ("Acquisition time:", prologue.acquired.text),
    ("Sub-satellite longitude:", Decimal.plainSingle prologue.longitude.value),
    ("Segments:", toString p.presentCount ++ " of " ++ toString p.plannedCount ++ " (missing: " ++
      missing ++ ")"),
    ("Segment size:", toString image.columns.toNat ++ " x " ++ toString image.lines.toNat ++ ", " ++
      toString image.bitsPerPixel.toNat ++ " bits per pixel"),
    ("Frame size:", toString (frameColumns channel image.columns.toNat) ++ " x " ++
      toString (image.lines.toNat * p.plannedCount)),
    ("Column/line scaling factors:", toString navigation.columnFactor.toInt ++ " / " ++
      toString navigation.lineFactor.toInt),
    ("Column/line offsets:", toString navigation.columnOffset.toInt ++ " / " ++
      toString navigation.lineOffset.toInt),
    ("Pixel size at sub-satellite point:",
      Decimal.fixed 3 (Grid.pixelSize navigation.columnFactor.toInt) ++ " x " ++
        Decimal.fixed 3 (Grid.pixelSize navigation.lineFactor.toInt) ++ " km"),
    ("Calibration:", (if channel.isReflective then "linear" else "brightness temperature") ++
      " (slope " ++ Decimal.plain gain.slope.value ++ ", offset " ++ Decimal.plain gain.offset.value ++ ") [" ++
      channel.unit ++ "]")]
  return String.join (lines.map fun l => SegmentHeader.summaryLine l.1 l.2)

/-- Values in lines of a width. -/
def valueLines (width : Nat) (values : Array Float32) : (lines start : Nat) → List String
  | 0, _ => []
  | lines + 1, start =>
      let line := (values.extract start (start + width)).toList
      (" ".intercalate (line.map Decimal.plainSingle) ++ "\n") ::
        valueLines width values lines (start + width)

/-- The physical values of an image, with a line about the image in front. -/
def pixelText (i : Image) : String :=
  "# " ++ i.fileStem ++ " " ++ (PixelArea.mk i.x0 i.y0 i.columns i.lines).text ++ "\n" ++
    String.join (valueLines i.columns i.data.allScaled i.lines 0)

/-- The bytes of a word in an order. -/
def wordBytes (order : ByteOrder) (word : Single) : List UInt8 :=
  match order with
  | .bigEndian => word.bytes
  | .littleEndian => word.bytes.reverse

/-- The physical values of an image as bytes. -/
def pixelBytes (i : Image) (order : ByteOrder) : List UInt8 :=
  i.data.allWords.toList.flatMap (wordBytes order)

/-- The name of the program with its version. -/
def versionText : String := "xrit-cli 0.3.0\n"

end SeviriImagery.CommandLine
