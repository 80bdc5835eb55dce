import SeviriImagery.Error
import SeviriImagery.Word.Size

/-!
# Packed samples

The samples of a segment follow each other bit by bit, most significant bit first, with no gap
between them; only behind the last sample is the byte filled up with zeros.

`pack` pushes the samples through a `BitSink`, which holds back the bits that do not yet fill a
byte.  `unpack` reads them with a `BitSource`, which holds the bits of the bytes begun.  Samples of
8 and of 16 bits need neither: they are bytes and pairs of bytes.

How many bytes hold the samples is a size, and the bits are counted on the way to it.  Where there are
more bits than a size can count, `packedLength` goes round and `unpack` reads what is left.
-/

namespace SeviriImagery.Packing

/-- The bytes that hold `count` samples of `bits` bits. -/
def packedLength (bits count : Nat) : Nat := (Size.mul count bits + 7) / 8

/-- Bytes written, and the bits that do not fill a byte yet. -/
structure BitSink where
  bytes : Array UInt8
  /-- The value of the bits held back. -/
  held : Nat
  /-- How many bits are held back. -/
  count : Nat

namespace BitSink

/-- A sink to which nothing has been written. -/
def empty : BitSink := ⟨#[], 0, 0⟩

/-- The bits that a sink can hold back at one time. -/
def width : Nat := 32

/-- Writes the bytes that the bits held back fill. -/
def flush (s : BitSink) : BitSink :=
  if s.count < 8 then s
  else
    let rest := s.count - 8
    flush ⟨s.bytes.push (.ofNat (s.held >>> rest)), s.held % (1 <<< rest), rest⟩
termination_by s.count

/-- Writes the `bits` lowest bits of a count. -/
def put (s : BitSink) (bits count : Nat) : BitSink :=
  let low := count % (1 <<< min bits 16)
  flush ⟨s.bytes, ((s.held <<< bits) + low) % (1 <<< width), s.count + bits⟩

/-- All bytes, the last one filled up with zeros. -/
def close (s : BitSink) : List UInt8 :=
  (if s.count = 0 then s.bytes else s.bytes.push (.ofNat (s.held <<< (8 - s.count)))).toList

end BitSink

/-- The bytes of samples of `bits` bits. -/
def pack (samples : Array Nat) (bits : Nat) : List UInt8 :=
  (samples.foldl (fun sink count => BitSink.put sink bits count) BitSink.empty).close

/-- Bits read but not used, and the bytes not yet read. -/
structure BitSource where
  /-- The value of the bits read but not used. -/
  held : Nat
  /-- How many they are. -/
  count : Nat
  rest : List UInt8

namespace BitSource

/-- Reads bytes until `bits` bits are held or no byte is left. -/
def refill (bits held count : Nat) : List UInt8 → BitSource
  | [] => ⟨held, count, []⟩
  | b :: rest =>
      if bits ≤ count then ⟨held, count, b :: rest⟩
      else refill bits (held * 256 + b.toNat) (count + 8) rest

/-- The value of the next `bits` bits, and the source behind them. -/
def take (s : BitSource) (bits : Nat) : Nat × BitSource :=
  let full := refill bits s.held s.count s.rest
  let rest := full.count - bits
  (full.held >>> rest, ⟨full.held % (1 <<< rest), rest, full.rest⟩)

/-- The next `n` samples of `bits` bits, behind those already taken. -/
def samples (bits : Nat) : (n : Nat) → BitSource → Array Nat → Array Nat
  | 0, _, taken => taken
  | n + 1, s, taken =>
      let (value, next) := s.take bits
      samples bits n next (taken.push value)

end BitSource

/-- Each two bytes as one number, behind those already taken. -/
def pairs : List UInt8 → Array Nat → Array Nat
  | high :: low :: rest, taken => pairs rest (taken.push (high.toNat * 256 + low.toNat))
  | _, taken => taken

/-- The first `count` samples of `bits` bits in a data field. -/
def unpack (data : List UInt8) (bits count : Nat) : Except FormatError (Array Nat) :=
  if ¬(1 ≤ bits ∧ bits ≤ 16) then .error (.unsupportedBitsPerPixel bits)
  else
    let needed := packedLength bits count
    if data.length < needed then .error (.shortPayload needed data.length)
    else if bits = 8 then
      -- only a count that has gone round can get here without its bytes
      if data.length < count then .error (.shortPayload count data.length)
      else .ok ((data.take count).map UInt8.toNat).toArray
    else if bits = 16 then .ok (pairs (data.take needed) #[])
    else .ok (BitSource.samples bits (min count (8 * needed / bits)) ⟨0, 0, data⟩ #[])

end SeviriImagery.Packing
