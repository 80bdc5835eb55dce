import SeviriImagery.Radiometry

/-!
# Calibration of samples

A calibration says what becomes of a raw count.  Raw counts may be kept as they are; a reflective
channel keeps them too, with a slope and an offset that make them physical; a thermal channel looks
them up in a table of temperatures, from which a baseline is taken off before they are stored.
-/

namespace SeviriImagery

/-- What becomes of a raw count. -/
inductive Calibration where
  /-- It is kept and means nothing else. -/
  | identity
  /-- Its physical value is linear in it. -/
  | linear (gain : Gain)
  /-- Its value is looked up, and the baseline taken off. -/
  | table (values : Array Float32) (baseline : Float32)

namespace Calibration

/-- The calibration by a table, which must hold a value for every count of the bit depth. -/
def ofTable (values : Array Float32) (bitsPerPixel : Nat) (baseline : Float32) :
    Except FormatError Calibration :=
  if values.size < 1 <<< bitsPerPixel then
    .error (.calibrationTableTooSmall values.size bitsPerPixel)
  else .ok (.table values baseline)

/-- The calibration of a channel under the radiometric processing of a product. -/
def ofChannel (r : Radiometry) (c : Channel) (bitsPerPixel : Nat) :
    Except FormatError Calibration :=
  if c.isReflective then .ok (.linear (r.gain c))
  else do
    let values ← r.table c bitsPerPixel
    ofTable values bitsPerPixel c.baseline

/-- Whether raw counts are kept. -/
def keepsCounts : Calibration → Bool
  | .table .. => false
  | _ => true

/-- The gain that makes stored values physical. -/
def gain : Calibration → Gain
  | .identity => .identity
  | .linear g => g
  | .table _ baseline => ⟨.one, .ofValue baseline.toFloat⟩

/-- The value of a count; by a table, less the baseline. -/
def apply : Calibration → (count : Nat) → Except FormatError Float32
  | .identity, count => .ok (Float32.ofNat count)
  | .linear g, count => .ok (Float.ofNat count * g.slope.value + g.offset.value).toFloat32
  | .table values baseline, count =>
      if h : count < values.size then .ok (values[count] - baseline)
      else .error (.sampleOutOfRange count values.size)

end Calibration

end SeviriImagery
