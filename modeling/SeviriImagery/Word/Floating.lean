import SeviriImagery.Word

/-!
# Floating-point words

Files hold numbers as words of 32 and of 64 bits.  A `Single` or a `Double` is such a word as it
stands, and its `value` is the number that it stands for.

The two differ where a word stands for no number.  It then has a sign and a payload that no
arithmetic sees, and many words have one and the same value; a field that is read and written again
keeps its word.  `Double.linear` says which word comes out of arithmetic on such words, and
`Double.narrowed` which one is left of it in 32 bits.
-/

namespace SeviriImagery

/-- A floating-point word of 32 bits. -/
structure Single where
  bits : UInt32
deriving DecidableEq, Repr

namespace Single

/-- The number that a word stands for. -/
def value (w : Single) : Float32 := .ofBits w.bits

/-- The word of a number. -/
def ofValue (x : Float32) : Single := ⟨x.toBits⟩

/-- The word of the number zero. -/
def zero : Single := ⟨0⟩

/-- The word of no number, with an empty payload. -/
def undefined (negative : Bool) : Single := ⟨if negative then 0xFFC00000 else 0x7FC00000⟩

/-- The word in the four bytes of `buffer` that begin at `start`. -/
def ofField (buffer : List UInt8) (start : Nat) : Single := ⟨Word.uint32 buffer start⟩

/-- The four bytes of a word. -/
def bytes (w : Single) : List UInt8 := Word.bytes32 w.bits

end Single

/-- A floating-point word of 64 bits. -/
structure Double where
  bits : UInt64
deriving DecidableEq, Repr

namespace Double

/-- The number that a word stands for. -/
def value (w : Double) : Float := .ofBits w.bits

/-- The word of a number. -/
def ofValue (x : Float) : Double := ⟨x.toBits⟩

/-- The word of the number zero. -/
def zero : Double := ⟨0⟩

/-- The word of the number one. -/
def one : Double := ⟨0x3FF0000000000000⟩

/-- The word that arithmetic gives where it has no result and no operand to blame. -/
def indefinite : Double := ⟨0xFFF8000000000000⟩

/-- A word of no number as arithmetic passes it on: the highest bit of its fraction is set. -/
def quiet (w : Double) : Double := ⟨w.bits ||| 0x0008000000000000⟩

/-- The word of `x * slope + offset` for a number `x`.  An operand that is no number is passed on,
the slope before the offset. -/
def linear (slope offset : Double) (x : Float) : Double :=
  let result := x * slope.value + offset.value
  if !result.isNaN then .ofValue result
  else if slope.value.isNaN then slope.quiet
  else if offset.value.isNaN then offset.quiet
  else indefinite

/-- A word in 32 bits: that of the nearest number, or that of no number with its sign and the front
of its payload. -/
def narrowed (w : Double) : Single :=
  if w.value.isNaN then
    let sign := (w.bits >>> 32) &&& 0x80000000
    let payload := (w.bits >>> 29) &&& 0x003FFFFF
    ⟨(sign ||| 0x7FC00000 ||| payload).toUInt32⟩
  else .ofValue w.value.toFloat32

/-- The word in the eight bytes of `buffer` that begin at `start`. -/
def ofField (buffer : List UInt8) (start : Nat) : Double := ⟨Word.uint64 buffer start⟩

/-- The eight bytes of a word. -/
def bytes (w : Double) : List UInt8 := Word.bytes64 w.bits

end Double

end SeviriImagery
