/-!
# Big-endian words

Every number in a segment file is written in base 256, most significant digit first.  `ofBytes`
reads such digits and `toBytes` writes a chosen number of them; `toBytes` keeps the lowest digits
of a number too large for its width, so negative words go through their two's complement.
-/

namespace SeviriImagery.Word

/-- The number whose digits in base 256, most significant first, are `bytes`. -/
def ofBytes (bytes : List UInt8) : Nat :=
  bytes.foldl (fun n b => n * 256 + b.toNat) 0

/-- The `width` lowest digits of `n` in base 256, most significant first. -/
def toBytes : (width n : Nat) → List UInt8
  | 0, _ => []
  | width + 1, n => toBytes width (n / 256) ++ [UInt8.ofNat n]

/-- The number in the `width` bytes of `buffer` that begin at `start`. -/
def field (buffer : List UInt8) (start width : Nat) : Nat :=
  ofBytes ((buffer.drop start).take width)

/-- A number is written with as many bytes as were asked for. -/
theorem length_toBytes (width n : Nat) : (toBytes width n).length = width := by
  induction width generalizing n with
  | zero => rfl
  | succ width ih => simp [toBytes, ih]

/-- A byte behind others moves their number up by a byte. -/
theorem ofBytes_append_singleton (bytes : List UInt8) (b : UInt8) :
    ofBytes (bytes ++ [b]) = ofBytes bytes * 256 + b.toNat := by
  simp [ofBytes]

/-- A word of 16 bits at `start`. -/
def uint16 (buffer : List UInt8) (start : Nat) : UInt16 := .ofNat (field buffer start 2)

/-- A word of 32 bits at `start`. -/
def uint32 (buffer : List UInt8) (start : Nat) : UInt32 := .ofNat (field buffer start 4)

/-- A word of 64 bits at `start`. -/
def uint64 (buffer : List UInt8) (start : Nat) : UInt64 := .ofNat (field buffer start 8)

/-- A signed word of 32 bits at `start`, in two's complement. -/
def int32 (buffer : List UInt8) (start : Nat) : Int32 := (uint32 buffer start).toInt32

/-- The byte at `start`, 0 past the end. -/
def byte (buffer : List UInt8) (start : Nat) : UInt8 := (buffer.drop start).headD 0

/-- The two bytes of a word of 16 bits. -/
def bytes16 (w : UInt16) : List UInt8 := toBytes 2 w.toNat

/-- The four bytes of a word of 32 bits. -/
def bytes32 (w : UInt32) : List UInt8 := toBytes 4 w.toNat

/-- The eight bytes of a word of 64 bits. -/
def bytes64 (w : UInt64) : List UInt8 := toBytes 8 w.toNat

/-- The four bytes of a signed word of 32 bits. -/
def bytesSigned32 (w : Int32) : List UInt8 := bytes32 w.toUInt32

end SeviriImagery.Word
