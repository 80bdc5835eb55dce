import SeviriImagery.Area
import SeviriImagery.Time

/-!
# What can go wrong

Errors are told apart by their causes, and each family of causes has one function for the words.
`ContentError` is what can be wrong with the content of a file; `Error` adds what can be wrong with
a request, with the search for files and with a file as such.  An `Error` about a file names the
file and keeps the cause.
-/

namespace SeviriImagery

/-- Why the file system refuses to open, list or write something. -/
inductive IoFault where
  | notFound
  | exists
  | notDirectory
  | isDirectory
  | nameTooLong
  | nulInPath
deriving DecidableEq, Repr

/-- The words for a fault, with the number the operating system gives it. -/
def IoFault.message : IoFault → String
  | .notFound => "No such file or directory (os error 2)"
  | .exists => "File exists (os error 17)"
  | .notDirectory => "Not a directory (os error 20)"
  | .isDirectory => "Is a directory (os error 21)"
  | .nameTooLong => "File name too long (os error 36)"
  | .nulInPath => "file name contained an unexpected NUL byte"

/-- Why bytes cannot be read. -/
inductive ReadFault where
  /-- They end before what was to be read. -/
  | short
  | io (fault : IoFault)
deriving DecidableEq, Repr

/-- The words for a reading fault. -/
def ReadFault.message : ReadFault → String
  | .short => "failed to fill whole buffer"
  | .io fault => fault.message

/-- A record that a caller cannot do without. -/
inductive MandatoryRecord where
  | imageStructure
  | imageNavigation
  | segmentIdentification
deriving DecidableEq, Repr

/-- The name of a record. -/
def MandatoryRecord.name : MandatoryRecord → String
  | .imageStructure => "image structure"
  | .imageNavigation => "image navigation"
  | .segmentIdentification => "segment identification"

/-- Why bytes are no header records or no data field. -/
inductive ParseError where
  | read (fault : ReadFault)
  | unexpectedEnd (position : Nat)
  | notPrimaryHeader (kind : UInt8)
  | invalidRecordLength (kind : UInt8) (length : Nat)
  | headerLengthMismatch (declared actual : Nat)
  | headerTooLong (length : Nat)
  | dataFieldTooLong (declared allowed : Nat)
  | missingRecord (record : MandatoryRecord)
  | unexpectedFileType (code : UInt8)
deriving DecidableEq, Repr

/-- The words for a parse error. -/
def ParseError.message : ParseError → String
  | .read fault => "Read error: " ++ fault.message
  | .unexpectedEnd position => "Unexpected end of data at " ++ toString position
  | .notPrimaryHeader kind =>
      "first header record has type " ++ toString kind.toNat ++ ", expected primary header"
  | .invalidRecordLength kind length =>
      "header record of type " ++ toString kind.toNat ++ " has invalid length " ++ toString length
  | .headerLengthMismatch declared actual =>
      "header records span " ++ toString actual ++ " bytes but " ++ toString declared ++
        " were declared"
  | .headerTooLong length => "declared header length " ++ toString length ++ " is too long"
  | .dataFieldTooLong declared allowed =>
      "data field of " ++ toString declared ++ " bits declared, image records allow " ++
        toString allowed
  | .missingRecord record => "mandatory " ++ record.name ++ " record not found"
  | .unexpectedFileType code => "unexpected file type code " ++ toString code.toNat

/-- The size of a segment and the depth of its samples. -/
structure SegmentShape where
  columns : Nat
  lines : Nat
  bitsPerPixel : Nat
deriving DecidableEq, Repr

namespace SegmentShape

/-- The samples of a segment. -/
def pixels (s : SegmentShape) : Nat := s.columns * s.lines

/-- A shape with the names of its parts. -/
def describe (s : SegmentShape) : String :=
  "SegmentShape \x7b columns: " ++ toString s.columns ++ ", lines: " ++ toString s.lines ++
    ", bits_per_pixel: " ++ toString s.bitsPerPixel ++ " \x7d"

end SegmentShape

/-- One of the two half images of the high-resolution channel. -/
inductive Half where
  | lower
  | upper
deriving DecidableEq, Repr

/-- The name of a half image. -/
def Half.name : Half → String
  | .lower => "lower"
  | .upper => "upper"

/-- How the geometry of a segment or of a product disagrees with what is expected. -/
inductive GeometryFault where
  | shape (expected found : SegmentShape)
  | westColumn (half : Half) (column least greatest : Nat)
  | upperSouthLine (line : Int)
deriving DecidableEq, Repr

/-- The words for a geometry fault. -/
def GeometryFault.message : GeometryFault → String
  | .shape expected found => "expected " ++ expected.describe ++ ", found " ++ found.describe
  | .westColumn half column least greatest =>
      "HRV " ++ half.name ++ " west column " ++ toString column ++ " outside " ++ toString least ++
        "..=" ++ toString greatest
  | .upperSouthLine line => "HRV upper south line " ++ toString line

/-- Why well-formed content is not of a kind that can be used. -/
inductive FormatError where
  | binaryDump
  | compressed (flag : UInt8)
  | unsupportedBitsPerPixel (bits : Nat)
  | unknownChannel (number : UInt8)
  | shortPayload (expected actual : Nat)
  | geometryMismatch (fault : GeometryFault)
  | sampleOutOfRange (sample entries : Nat)
  | calibrationTableTooSmall (entries bits : Nat)
deriving DecidableEq, Repr

/-- The words for a format error. -/
def FormatError.message : FormatError → String
  | .binaryDump => "product dumped in binary format"
  | .compressed flag =>
      "segment is compressed (flag " ++ toString flag.toNat ++ "); decompress it before decoding"
  | .unsupportedBitsPerPixel bits => "unsupported bits per pixel: " ++ toString bits
  | .unknownChannel number => "unknown spectral channel id " ++ toString number.toNat
  | .shortPayload expected actual =>
      "pixel payload holds " ++ toString actual ++ " bytes, " ++ toString expected ++
        " were expected"
  | .geometryMismatch fault => "segment geometry mismatch: " ++ fault.message
  | .sampleOutOfRange sample entries =>
      "raw sample " ++ toString sample ++ " is outside the calibration table of " ++
        toString entries ++ " entries"
  | .calibrationTableTooSmall entries bits =>
      "calibration table of " ++ toString entries ++ " entries cannot hold " ++ toString bits ++
        "-bit samples"

/-- Why a value cannot be used. -/
inductive ValueError where
  | time (e : TimeError)
  | countsNotIntegers
  | sampleCount (samples columns lines : Nat)
  | areaExceeds (area : PixelArea) (columns lines : Nat)
  | lineRead (line lines length : Nat)
  /-- A row that would end in front of its first column. -/
  | reversedRow (first behind : Nat)
  | segmentUnavailable (index : Nat)
  | segmentSamples (sequence expected actual : Nat)
  | highResolutionExport
  | exportNeedsCounts
  | tooLargeForSegments (columns lines : Nat)
deriving DecidableEq, Repr

/-- The words for a value error. -/
def ValueError.message : ValueError → String
  | .time e => e.message
  | .countsNotIntegers => "raw counts must be stored as integers"
  | .sampleCount samples columns lines =>
      toString samples ++ " samples cannot fill " ++ toString columns ++ " x " ++ toString lines ++
        " pixels"
  | .areaExceeds area columns lines =>
      "area " ++ area.text ++ " exceeds " ++ toString columns ++ "x" ++ toString lines ++ " image"
  | .lineRead line lines length =>
      "cannot read line " ++ toString line ++ " of " ++ toString lines ++ " into a buffer of " ++
        toString length ++ " samples"
  | .reversedRow first behind =>
      "slice index starts at " ++ toString first ++ " but ends at " ++ toString behind
  | .segmentUnavailable index => "segment " ++ toString index ++ " is not available"
  | .segmentSamples sequence expected actual =>
      "segment " ++ toString sequence ++ " needs " ++ toString expected ++ " samples, got " ++
        toString actual
  | .highResolutionExport => "HRV images cannot be re-segmented"
  | .exportNeedsCounts => "only raw counts of at most 16 bits can be written"
  | .tooLargeForSegments columns lines =>
      toString columns ++ "x" ++ toString lines ++ " image is too large for xRIT segments"

/-- A part of a product name. -/
inductive NamePart where
  | resolution
  | productId1
  | productId2
  | timing
deriving DecidableEq, Repr

/-- What a part of a product name is called. -/
def NamePart.name : NamePart → String
  | .resolution => "resolution"
  | .productId1 => "product id 1"
  | .productId2 => "product id 2"
  | .timing => "timing"

/-- Why a request cannot be met. -/
inductive ConfigError where
  | missingPart (part : NamePart)
  | longPart (part : NamePart) (value : String) (limit : Nat)
  | forbiddenCharacter (part : NamePart) (value : String)
  | notAProductName (text : String)
  | invalidBounds (bounds : GeoBounds)
  | notInside (area : PixelArea) (columns lines : Nat)
  | emptyImage (bounds : GeoBounds)
  | notVisible (bounds : GeoBounds)
  | twoAreas
deriving DecidableEq

/-- The words for a request that cannot be met. -/
def ConfigError.message : ConfigError → String
  | .missingPart part => "missing " ++ part.name
  | .longPart part value limit =>
      part.name ++ " '" ++ value ++ "' is longer than " ++ toString limit ++ " characters"
  | .forbiddenCharacter part value =>
      part.name ++ " '" ++ value ++ "' contains characters not allowed in file names"
  | .notAProductName text =>
      "'" ++ text ++
        "' is not of the form <directory>/<resolution>:<product id 1>:<product id 2>:<timing>"
  | .invalidBounds bounds => "invalid geographic area: " ++ bounds.ranges
  | .notInside area columns lines =>
      "area " ++ area.text ++ " is not inside the " ++ toString columns ++ "x" ++ toString lines ++
        " image"
  | .emptyImage bounds =>
      "geographic area " ++ bounds.describe ++ " cannot be located in an empty image"
  | .notVisible bounds => "geographic area " ++ bounds.describe ++ " is not visible in the image"
  | .twoAreas => "pixel and geographic areas cannot be requested together"

/-- Why a text is no wildcard pattern. -/
inductive WildcardFault where
  | tooManyStars
  | strayDoubleStar
  | openRange
deriving DecidableEq, Repr

/-- The words for a wildcard fault. -/
def WildcardFault.message : WildcardFault → String
  | .tooManyStars => "wildcards are either regular \x60*\x60 or recursive \x60**\x60"
  | .strayDoubleStar => "recursive wildcards must form a single path component"
  | .openRange => "invalid range pattern"

/-- A wildcard fault and the character of the pattern where it was noticed. -/
structure WildcardError where
  position : Nat
  fault : WildcardFault
deriving DecidableEq, Repr

/-- The words for a wildcard error. -/
def WildcardError.message (e : WildcardError) : String :=
  "Pattern syntax error near position " ++ toString e.position ++ ": " ++ e.fault.message

/-- Why the files of a product cannot be found. -/
inductive LocateError where
  | noSuchFile (pattern : String)
  | ambiguousPrologue (pattern : String) (files : Nat)
  | noSuchSegments (pattern : String)
  | badPattern (pattern : String) (error : WildcardError)
deriving DecidableEq, Repr

/-- The words for a failed search. -/
def LocateError.message : LocateError → String
  | .noSuchFile pattern => "no such file " ++ pattern
  | .ambiguousPrologue pattern files =>
      "non-univocal prologue (" ++ toString files ++ " files match " ++ pattern ++
        "): do not trust calibration"
  | .noSuchSegments pattern => "no such file(s) " ++ pattern
  | .badPattern pattern error => "invalid file name pattern: " ++ pattern ++ ": " ++ error.message

/-- What can be wrong with the content of a file. -/
inductive ContentError where
  | parse (e : ParseError)
  | format (e : FormatError)
  | value (e : ValueError)
deriving DecidableEq, Repr

/-- The words for a content error. -/
def ContentError.message : ContentError → String
  | .parse e => e.message
  | .format e => e.message
  | .value e => e.message

/-- Why a file cannot be used. -/
inductive FileCause where
  | io (fault : IoFault)
  | content (e : ContentError)
  /-- A cause that is known by its words only. -/
  | remark (text : String)
deriving DecidableEq, Repr

/-- The words for the trouble with a file. -/
def FileCause.message : FileCause → String
  | .io fault => fault.message
  | .content e => e.message
  | .remark text => text

/-- Anything that can go wrong. -/
inductive Error where
  | config (e : ConfigError)
  | locate (e : LocateError)
  | content (e : ContentError)
  | file (path : String) (cause : FileCause)
  | cancelled
deriving DecidableEq

/-- The words for an error. -/
def Error.message : Error → String
  | .config e => "Configuration error: " ++ e.message
  | .locate e => e.message
  | .content e => e.message
  | .file path cause => "cannot open/parse segment " ++ path ++ ": " ++ cause.message
  | .cancelled => "decoding cancelled"

/-- The error of a value that cannot be used. -/
def Error.value (e : ValueError) : Error := .content (.value e)

/-- The error of content that is not of a usable kind. -/
def Error.format (e : FormatError) : Error := .content (.format e)

/-- The error of content that cannot be parsed. -/
def Error.parse (e : ParseError) : Error := .content (.parse e)

/-- The result of reading a file's content, with the file named in the error. -/
def inFile {α : Type} (path : String) : Except ContentError α → Except Error α
  | .ok a => .ok a
  | .error e => .error (.file path (.content e))

end SeviriImagery
