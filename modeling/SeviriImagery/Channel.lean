/-!
# Spectral channels

The imager has twelve channels, numbered from one.  Four of them see sunlight that the Earth
reflects, and their counts are linear in radiance; the other eight see the Earth's own heat, and
their counts are turned into brightness temperatures.
-/

namespace SeviriImagery

/-- A spectral channel of the imager. -/
inductive Channel where
  | vis006 | vis008 | ir016 | ir039 | wv062 | wv073
  | ir087 | ir097 | ir108 | ir120 | ir134 | hrv
deriving DecidableEq, Repr

namespace Channel

/-- The channels in the order of their numbers. -/
def all : List Channel :=
  [vis006, vis008, ir016, ir039, wv062, wv073, ir087, ir097, ir108, ir120, ir134, hrv]

/-- The place of a channel among the twelve, from zero. -/
def index : Channel → Fin 12
  | vis006 => 0 | vis008 => 1 | ir016 => 2 | ir039 => 3 | wv062 => 4 | wv073 => 5
  | ir087 => 6 | ir097 => 7 | ir108 => 8 | ir120 => 9 | ir134 => 10 | hrv => 11

/-- The number of a channel in segment files. -/
def number (c : Channel) : UInt8 := .ofNat (c.index + 1)

/-- The channel with a number. -/
def ofNumber? (n : UInt8) : Option Channel := all.find? (fun c => c.number == n)

/-- The name of a channel. -/
def name : Channel → String
  | vis006 => "VIS006" | vis008 => "VIS008" | ir016 => "IR_016" | ir039 => "IR_039"
  | wv062 => "WV_062" | wv073 => "WV_073" | ir087 => "IR_087" | ir097 => "IR_097"
  | ir108 => "IR_108" | ir120 => "IR_120" | ir134 => "IR_134" | hrv => "HRV"

/-- Whether a channel sees reflected sunlight. -/
def isReflective : Channel → Bool
  | vis006 | vis008 | ir016 | hrv => true
  | _ => false

/-- The temperature, in kelvin, that is taken off before a value of the channel is stored. -/
def baseline (c : Channel) : Float32 := if c.isReflective then 0 else 145

/-- The unit of a calibrated value. -/
def unit (c : Channel) : String :=
  if c.isReflective then "mW m-2 sr-1 (cm-1)-1" else "K"

/-- A channel is found under its own number. -/
theorem ofNumber?_number (c : Channel) : ofNumber? c.number = some c := by
  cases c <;> decide

end Channel

end SeviriImagery
