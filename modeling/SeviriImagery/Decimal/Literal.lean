import SeviriImagery.Word.Floating

/-!
# Decimal literals

A literal is an optional sign followed by digits with at most one point among or around them and an
optional exponent, or by one of the words `inf`, `infinity` and `nan` in any case.  At least one
digit is needed.  `Literal.ofText?` reads one.  `toDouble` gives the binary number nearest to it and
`toSingle` the word of that in 32 bits, a half going to the even neighbour; the word keeps the sign
of what is no number.
-/

namespace SeviriImagery.Decimal

/-- The value of a decimal literal. -/
inductive Literal where
  | nan (negative : Bool)
  | infinite (negative : Bool)
  /-- The number `coefficient * 10 ^ exponent`, or its opposite. -/
  | finite (negative : Bool) (coefficient : Nat) (exponent : Int)
deriving DecidableEq, Repr

/-- The number with these decimal digits. -/
def ofDigits (digits : List Char) : Nat :=
  digits.foldl (fun n c => n * 10 + (c.toNat - '0'.toNat)) 0

/-- A text split into its sign, if it begins with one, and the rest. -/
def splitSign : List Char → Bool × List Char
  | '-' :: rest => (true, rest)
  | '+' :: rest => (false, rest)
  | rest => (false, rest)

/-- The exponent at the end of a literal: nothing, or `e` with an optionally signed number. -/
def exponentOf? : List Char → Option Int
  | [] => some 0
  | c :: rest =>
      if c = 'e' ∨ c = 'E' then
        let (negative, digits) := splitSign rest
        if digits.isEmpty || !digits.all Char.isDigit then none
        else some (if negative then -(ofDigits digits : Int) else ofDigits digits)
      else none

/-- An unsigned literal of digits. -/
def numeral? (negative : Bool) (text : List Char) : Option Literal :=
  let whole := text.takeWhile Char.isDigit
  let rest := text.dropWhile Char.isDigit
  let (fraction, tail) := match rest with
    | '.' :: after => (after.takeWhile Char.isDigit, after.dropWhile Char.isDigit)
    | _ => ([], rest)
  if whole.isEmpty && fraction.isEmpty then none
  else (exponentOf? tail).map fun e => .finite negative (ofDigits (whole ++ fraction)) (e - fraction.length)

/-- The literal that a text is, if it is one. -/
def Literal.ofText? (text : List Char) : Option Literal :=
  let (negative, rest) := splitSign text
  let word := String.ofList (rest.map Char.toLower)
  if word = "nan" then some (.nan negative)
  else if word = "inf" ∨ word = "infinity" then some (.infinite negative)
  else numeral? negative rest

/-- The 64-bit number nearest to a literal. -/
def Literal.toDouble : Literal → Float
  | .nan _ => 0.0 / 0.0
  | .infinite negative => if negative then -1.0 / 0.0 else 1.0 / 0.0
  | .finite negative n e =>
      let x := Float.ofScientific n (e < 0) e.natAbs
      if negative then -x else x

/-- The word of the 32-bit number nearest to a literal. -/
def Literal.toSingle : Literal → Single
  | .nan negative => .undefined negative
  | .infinite negative => .ofValue (if negative then -1.0 / 0.0 else 1.0 / 0.0)
  | .finite negative n e =>
      let x := Float32.ofScientific n (e < 0) e.natAbs
      .ofValue (if negative then -x else x)

end SeviriImagery.Decimal
