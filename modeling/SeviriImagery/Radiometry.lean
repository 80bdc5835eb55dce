import SeviriImagery.Channel
import SeviriImagery.Error
import SeviriImagery.Word.Floating

/-!
# From counts to radiances and temperatures

The prologue of a product gives a slope and an offset for each channel, which turn a count into a
radiance.  For a reflective channel that is the physical value.  For a thermal channel the radiance
is taken through the inverse Planck function of the channel's band, and the physical value is a
brightness temperature.

`Radiometry.table` is the value of every count of a bit depth.  Count 0 says that there is no data,
and a thermal channel has no temperature for a radiance that is not positive: both give NaN.
-/

namespace SeviriImagery

/-- The number that is no number. -/
def notANumber : Float32 := Float32.ofBits 0x7fc00000

/-- A linear relation between counts and radiances. -/
structure Gain where
  slope : Double
  offset : Double
deriving DecidableEq, Repr

/-- The gain that leaves a count as it is. -/
def Gain.identity : Gain := ⟨.one, .zero⟩

/-- The radiometric processing of a product. -/
structure Radiometry where
  /-- The satellite, by its number in segment files. -/
  satellite : UInt16
  /-- The gains of the channels in the order of their numbers. -/
  gains : Vector Gain 12
deriving DecidableEq

/-- The central wavenumber of a thermal band, and the linear correction that makes up for its
width. -/
structure ThermalBand where
  wavenumber : Float
  scale : Float
  shift : Float

namespace ThermalBand

/-- The first radiation constant, for radiances in mW m-2 sr-1 (cm-1)-1. -/
def firstConstant : Float := 1.19104e-5

/-- The second radiation constant. -/
def secondConstant : Float := 1.43877

/-- The temperature at which a black body has a radiance in a band. -/
def temperature (band : ThermalBand) (radiance : Float) : Float :=
  let v := band.wavenumber
  (secondConstant * v / (1.0 + firstConstant * (v * (v * v)) / radiance).log - band.shift) /
    band.scale

/-- The eight thermal bands of the first satellite, from 3.9 to 13.4 micrometres. -/
def ofFirst : Vector ThermalBand 8 := #v[
  ⟨2567.330, 0.9956, 3.410⟩, ⟨1598.103, 0.9962, 2.218⟩, ⟨1362.081, 0.9991, 0.478⟩,
  ⟨1149.069, 0.9996, 0.179⟩, ⟨1034.343, 0.9999, 0.060⟩, ⟨930.647, 0.9983, 0.625⟩,
  ⟨839.660, 0.9988, 0.397⟩, ⟨752.387, 0.9981, 0.578⟩]

/-- The eight thermal bands of the second satellite. -/
def ofSecond : Vector ThermalBand 8 := #v[
  ⟨2568.832, 0.9954, 3.438⟩, ⟨1600.548, 0.9963, 2.185⟩, ⟨1360.330, 0.9991, 0.470⟩,
  ⟨1148.620, 0.9996, 0.179⟩, ⟨1035.289, 0.9999, 0.056⟩, ⟨931.700, 0.9983, 0.640⟩,
  ⟨836.445, 0.9988, 0.408⟩, ⟨751.792, 0.9981, 0.561⟩]

/-- The eight thermal bands of the third satellite. -/
def ofThird : Vector ThermalBand 8 := #v[
  ⟨2547.771, 0.9915, 2.9002⟩, ⟨1595.621, 0.9960, 2.0337⟩, ⟨1360.377, 0.9991, 0.4340⟩,
  ⟨1148.130, 0.9996, 0.1714⟩, ⟨1034.715, 0.9999, 0.0527⟩, ⟨929.842, 0.9983, 0.6084⟩,
  ⟨838.659, 0.9988, 0.3882⟩, ⟨750.653, 0.9982, 0.5390⟩]

/-- The eight thermal bands of the fourth satellite. -/
def ofFourth : Vector ThermalBand 8 := #v[
  ⟨2555.280, 0.9916, 2.9438⟩, ⟨1596.080, 0.9959, 2.0780⟩, ⟨1361.748, 0.9990, 0.4929⟩,
  ⟨1147.433, 0.9996, 0.1731⟩, ⟨1034.851, 0.9998, 0.0597⟩, ⟨931.122, 0.9983, 0.6256⟩,
  ⟨839.113, 0.9988, 0.4002⟩, ⟨748.585, 0.9981, 0.5635⟩]

/-- The bands of a satellite, by its number in segment files, if they are known. -/
def ofSatellite? (satellite : UInt16) : Option (Vector ThermalBand 8) :=
  if satellite = 321 then some ofFirst
  else if satellite = 322 then some ofSecond
  else if satellite = 323 then some ofThird
  else if satellite = 324 then some ofFourth
  else none

/-- The place of a thermal channel among the eight. -/
def place : Channel → Fin 8
  | .wv062 => 1 | .wv073 => 2 | .ir087 => 3 | .ir097 => 4 | .ir108 => 5 | .ir120 => 6
  | .ir134 => 7
  | _ => 0

end ThermalBand

namespace Radiometry

/-- The gain of a channel. -/
def gain (r : Radiometry) (c : Channel) : Gain := r.gains[c.index]

/-- Whether the bands of the satellite are known; those of the second satellite serve for one
that is not. -/
def knowsSatellite (r : Radiometry) : Bool := (ThermalBand.ofSatellite? r.satellite).isSome

/-- The band of a thermal channel. -/
def band (r : Radiometry) (c : Channel) : ThermalBand :=
  ((ThermalBand.ofSatellite? r.satellite).getD ThermalBand.ofSecond)[ThermalBand.place c]

/-- The radiance of a count. -/
def radiance (r : Radiometry) (c : Channel) (count : Nat) : Float :=
  let g := r.gain c
  g.offset.value + g.slope.value * Float.ofNat count

/-- The physical value of a count. -/
def physical (r : Radiometry) (c : Channel) (count : Nat) : Float32 :=
  let radiance := r.radiance c count
  if count = 0 then notANumber
  else if c.isReflective then radiance.toFloat32
  else if radiance ≤ 0 then notANumber
  else ((r.band c).temperature radiance).toFloat32

/-- The physical values of all counts of a bit depth. -/
def table (r : Radiometry) (c : Channel) (bitsPerPixel : Nat) : Except FormatError (Array Float32) :=
  if 1 ≤ bitsPerPixel ∧ bitsPerPixel ≤ 16 then
    .ok (Array.ofFn (n := 1 <<< bitsPerPixel) fun count => r.physical c count)
  else .error (.unsupportedBitsPerPixel bitsPerPixel)

/-- Whether the table of a channel is made with the bands of another satellite. -/
def borrowsBands (r : Radiometry) (c : Channel) : Bool := !c.isReflective && !r.knowsSatellite

end Radiometry

end SeviriImagery
