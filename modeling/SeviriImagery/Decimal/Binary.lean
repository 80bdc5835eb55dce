/-!
# Binary numbers taken apart

A floating-point word is a sign, an exponent and a fraction.  `Layout.parts` takes such a word
apart into the number it stands for, `significand * 2 ^ exponent`, so that the decimal texts of
this library are computed in exact natural-number arithmetic.

`Layout.parts` also says whether the number begins a binade.  The numbers just below such a number
lie twice as dense as those above it.
-/

namespace SeviriImagery.Decimal

/-- How the bits of a floating-point word are divided. -/
structure Layout where
  fractionBits : Nat
  exponentBits : Nat

/-- Words of 32 bits. -/
def single : Layout := ⟨23, 8⟩

/-- Words of 64 bits. -/
def double : Layout := ⟨52, 11⟩

/-- A floating-point word taken apart. -/
inductive Parts where
  | nan
  | infinite (negative : Bool)
  /-- The number `significand * 2 ^ exponent`, or its opposite. -/
  | finite (negative : Bool) (significand : Nat) (exponent : Int) (beginsBinade : Bool)

/-- What the exponent field of the number one exceeds its true exponent by. -/
def Layout.bias (l : Layout) : Nat := (1 <<< (l.exponentBits - 1)) - 1

/-- The number that the word with these bits stands for. -/
def Layout.parts (l : Layout) (bits : Nat) : Parts :=
  let fraction := bits % (1 <<< l.fractionBits)
  let field := (bits >>> l.fractionBits) % (1 <<< l.exponentBits)
  let negative := (bits >>> (l.fractionBits + l.exponentBits)) % 2 == 1
  let unit : Int := 1 - l.bias - l.fractionBits
  if field = (1 <<< l.exponentBits) - 1 then
    if fraction = 0 then .infinite negative else .nan
  else if field = 0 then
    .finite negative fraction unit false
  else
    .finite negative ((1 <<< l.fractionBits) + fraction) (unit + (field - 1))
      (fraction == 0 && field != 1)

/-- A 32-bit number taken apart. -/
def partsOfSingle (x : Float32) : Parts := single.parts x.toBits.toNat

/-- A 64-bit number taken apart. -/
def partsOfDouble (x : Float) : Parts := double.parts x.toBits.toNat

/-- A positive fraction of two natural numbers. -/
structure Ratio where
  numerator : Nat
  denominator : Nat

/-- The fraction `n * base ^ exponent`. -/
def Ratio.scaled (n base : Nat) (exponent : Int) : Ratio :=
  if 0 ≤ exponent then ⟨n * base.pow exponent.toNat, 1⟩ else ⟨n, base.pow (-exponent).toNat⟩

/-- The product of two fractions. -/
def Ratio.mul (a b : Ratio) : Ratio := ⟨a.numerator * b.numerator, a.denominator * b.denominator⟩

/-- Order of fractions, by cross multiplication. -/
def Ratio.lt (a b : Ratio) : Bool := a.numerator * b.denominator < b.numerator * a.denominator

/-- The whole part of a fraction. -/
def Ratio.floor (a : Ratio) : Nat := a.numerator / a.denominator

end SeviriImagery.Decimal
