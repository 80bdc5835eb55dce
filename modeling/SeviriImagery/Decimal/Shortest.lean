import SeviriImagery.Decimal.Binary

/-!
# The fewest digits that read back

A binary number is the nearest one to every real number of an interval around it.  `shortest` gives
the decimal number with the fewest digits in that interval and, among those, the one nearest to the
binary number; of two equally near ones it takes the larger.  The ends of the interval belong to it
when the significand is even, because a reader sends a real number halfway between two binary
numbers to the even one.

The search tries one digit, then two, and so on.  On each grid only the two neighbours of the
binary number can be nearest, so only they are looked at.
-/

namespace SeviriImagery.Decimal

/-- The decimal number `coefficient * 10 ^ exponent`. -/
structure Scaled where
  coefficient : Nat
  exponent : Int
deriving DecidableEq, Repr

/-- How many digits `n` has; 0 has none. -/
def digitCount (n : Nat) : Nat :=
  if n = 0 then 0 else (Nat.toDigits 10 n).length

/-- How many zeros stand between the point and the first other digit of a fraction below one;
`fuel` bounds them. -/
def leadingZeros (r : Ratio) : (fuel : Nat) → Nat
  | 0 => 0
  | fuel + 1 =>
      if r.numerator * 10 < r.denominator then
        leadingZeros ⟨r.numerator * 10, r.denominator⟩ fuel + 1
      else 0

/-- The place of the first digit of `r`: the least `p` with `r < 10 ^ p`. -/
def magnitude (r : Ratio) : Int :=
  if r.floor = 0 then -(leadingZeros r (r.denominator.log2 + 1) : Int) else digitCount r.floor

/-- The real numbers that round to one binary number, and that number itself. -/
structure Basin where
  low : Ratio
  centre : Ratio
  high : Ratio
  /-- Whether the ends belong to the interval. -/
  closed : Bool

/-- The reals around `significand * 2 ^ exponent`. -/
def Basin.around (significand : Nat) (exponent : Int) (beginsBinade : Bool) : Basin where
  low := .scaled (4 * significand - if beginsBinade then 1 else 2) 2 (exponent - 2)
  centre := .scaled (4 * significand) 2 (exponent - 2)
  high := .scaled (4 * significand + 2) 2 (exponent - 2)
  closed := significand % 2 == 0

/-- Whether a real number rounds to the binary number of the basin. -/
def Basin.holds (b : Basin) (r : Ratio) : Bool :=
  if b.closed then !r.lt b.low && !b.high.lt r else b.low.lt r && r.lt b.high

/-- The nearest number to the centre of the basin among the multiples of `10 ^ exponent`, if one of
them lies in the basin. -/
def Basin.onGrid (b : Basin) (exponent : Int) : Option Nat :=
  let below := (b.centre.mul (.scaled 1 10 (-exponent))).floor
  let lowHit := b.holds (.scaled below 10 exponent)
  let highHit := b.holds (.scaled (below + 1) 10 exponent)
  if lowHit && highHit then
    let middle := Ratio.mul (.scaled (2 * below + 1) 10 exponent) ⟨1, 2⟩
    if b.centre.lt middle then some below else some (below + 1)
  else if lowHit then some below
  else if highHit then some (below + 1)
  else none

/-- The first grid with a number in the basin, from the one whose unit is `10 ^ exponent` to ever
finer ones; `fuel` bounds their number. -/
def Basin.search (b : Basin) (exponent : Int) : (fuel : Nat) → Scaled
  | 0 => ⟨(b.centre.mul (.scaled 1 10 (-exponent))).floor, exponent⟩
  | fuel + 1 =>
      match b.onGrid exponent with
      | some n => ⟨n, exponent⟩
      | none => b.search (exponent - 1) fuel

/-- `s` without the zeros at its right end; `fuel` bounds them. -/
def Scaled.strip (s : Scaled) : (fuel : Nat) → Scaled
  | 0 => s
  | fuel + 1 =>
      if s.coefficient ≠ 0 ∧ s.coefficient % 10 = 0 then
        strip ⟨s.coefficient / 10, s.exponent + 1⟩ fuel
      else s

/-- More digits than any number of at most 64 bits needs. -/
def digitLimit : Nat := 17

/-- The decimal number of fewest digits that reads back as `significand * 2 ^ exponent`, where
`0 < significand`. -/
def shortest (significand : Nat) (exponent : Int) (beginsBinade : Bool) : Scaled :=
  let basin := Basin.around significand exponent beginsBinade
  (basin.search (magnitude basin.centre - 1) digitLimit).strip digitLimit

end SeviriImagery.Decimal
