import SeviriImagery.Coverage
import SeviriImagery.Header.Reader
import SeviriImagery.Radiometry

/-!
# Prologues and epilogues

Beside its segments a product has a prologue and may have an epilogue.  They are long records of
which this library needs a few fields only; their places are named here.  Reading takes these
fields and no other byte, and writing leaves all other bytes zero.

The coverage in the prologue is the planned one, that in the epilogue the actual one.
-/

namespace SeviriImagery

/-- Fields at their places, in ascending order, in a buffer of zeros; `position` bytes of it are
written already. -/
def layFields (length position : Nat) : List (Nat × List UInt8) → List UInt8
  | [] => List.replicate (length - position) 0
  | (start, field) :: rest =>
      List.replicate (start - position) 0 ++ (field ++ layFields length (start + field.length) rest)

namespace Prologue

/-- The place of the satellite's number. -/
def satelliteAt : Nat := 0

/-- The place of the time code of the repeat cycle's start. -/
def cycleStartAt : Nat := 60134

/-- The place of the longitude below the satellite. -/
def longitudeAt : Nat := 386893

/-- The place of the planned coverage. -/
def plannedCoverageAt : Nat := 386947

/-- The place of the first channel's gain; the others follow. -/
def gainsAt : Nat := 387065

/-- The bytes of a gain. -/
def gainLength : Nat := 16

/-- The least length of a prologue's data field. -/
def length : Nat := gainsAt + 12 * gainLength

end Prologue

/-- What the prologue of a product says. -/
structure Prologue where
  /-- The satellite, by its number in segment files. -/
  satellite : UInt16
  acquired : UtcTime
  /-- The longitude below the satellite in degrees. -/
  longitude : Single
  plannedCoverage : Coverage
  radiometry : Radiometry
deriving DecidableEq

/-- A gain in the bytes of a data field. -/
def Gain.ofField (field : List UInt8) (start : Nat) : Gain :=
  ⟨.ofField field start, .ofField field (start + 8)⟩

/-- The bytes of a gain. -/
def Gain.bytes (g : Gain) : List UInt8 := g.slope.bytes ++ g.offset.bytes

namespace Prologue

/-- The prologue in a data field. -/
def ofDataField (data : List UInt8) : Except ContentError Prologue := do
  if data.length < length then throw (.parse (.unexpectedEnd data.length))
  let satellite := Word.uint16 data satelliteAt
  let code : DayCode := ⟨Word.field data cycleStartAt 2, Word.field data (cycleStartAt + 2) 4⟩
  let gains := data.drop gainsAt
  let acquired ← (UtcTime.ofCode code).mapError fun e => .value (.time e)
  return {
    satellite
    acquired
    longitude := .ofField data longitudeAt
    plannedCoverage := .ofField data plannedCoverageAt
    radiometry := ⟨satellite, .ofFn fun i => .ofField gains (i * gainLength)⟩ }

/-- The data field of a prologue, if its time has a code. -/
def toDataField (p : Prologue) : Except TimeError (List UInt8) := do
  let code ← p.acquired.toCode
  return layFields length 0 [
    (satelliteAt, Word.bytes16 p.satellite),
    (cycleStartAt, Word.toBytes 2 code.days ++ Word.toBytes 4 code.millis),
    (longitudeAt, p.longitude.bytes),
    (plannedCoverageAt, p.plannedCoverage.bytes),
    (gainsAt, p.radiometry.gains.toList.flatMap Gain.bytes)]

end Prologue

namespace Epilogue

/-- The place of the actual coverage. -/
def coverageAt : Nat := 308

/-- The least length of an epilogue's data field. -/
def length : Nat := coverageAt + Coverage.length

end Epilogue

/-- What the epilogue of a product says. -/
structure Epilogue where
  coverage : Coverage
deriving DecidableEq

namespace Epilogue

/-- The epilogue in a data field. -/
def ofDataField (data : List UInt8) : Except ContentError Epilogue :=
  if data.length < length then .error (.parse (.unexpectedEnd data.length))
  else .ok ⟨.ofField data coverageAt⟩

/-- The data field of an epilogue. -/
def toDataField (e : Epilogue) : List UInt8 := layFields length 0 [(coverageAt, e.coverage.bytes)]

end Epilogue

end SeviriImagery
