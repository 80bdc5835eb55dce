/-!
# Reading UTF-8 that may be broken

Text fields of header records are bytes that anybody may have written.  `decode` reads them as
UTF-8 one byte at a time: a byte either completes a character, is owed by the character begun, or
breaks it.  What is broken, as far as it was well formed, becomes one replacement character, and
the breaking byte is looked at afresh.

`encode` is the other direction; it never fails, as a `Char` is a scalar value.
-/

namespace SeviriImagery.Text

/-- The character that stands for bytes which are no UTF-8. -/
def replacementCharacter : Char := Char.ofNat 0xFFFD

/-- A character whose first bytes have been read. -/
structure PartialChar where
  /-- Bytes still owed. -/
  owed : Nat
  /-- Least value the next byte may have. -/
  low : Nat
  /-- Greatest value the next byte may have. -/
  high : Nat
  /-- The bits of the bytes read, most significant first. -/
  bits : Nat

/-- What a byte means between two characters: a whole character, the first byte of one, or
nothing. -/
inductive Lead where
  | whole (c : Char)
  | begun (p : PartialChar)
  | broken

/-- The meaning of `b` between two characters. -/
def Lead.ofByte (b : Nat) : Lead :=
  if b < 0x80 then .whole (Char.ofNat b)
  else if b < 0xC2 then .broken
  else if b < 0xE0 then .begun ⟨1, 0x80, 0xBF, b % 0x20⟩
  else if b = 0xE0 then .begun ⟨2, 0xA0, 0xBF, 0⟩
  else if b = 0xED then .begun ⟨2, 0x80, 0x9F, 0xD⟩
  else if b < 0xF0 then .begun ⟨2, 0x80, 0xBF, b % 0x10⟩
  else if b = 0xF0 then .begun ⟨3, 0x90, 0xBF, 0⟩
  else if b < 0xF4 then .begun ⟨3, 0x80, 0xBF, b % 8⟩
  else if b = 0xF4 then .begun ⟨3, 0x80, 0x8F, 4⟩
  else .broken

/-- Where a reader of UTF-8 stands: the characters read, latest first, and the one begun. -/
structure Utf8State where
  read : List Char
  begun : Option PartialChar

/-- One byte read between two characters. -/
def Utf8State.lead (read : List Char) (b : Nat) : Utf8State :=
  match Lead.ofByte b with
  | .whole c => ⟨c :: read, none⟩
  | .begun p => ⟨read, some p⟩
  | .broken => ⟨replacementCharacter :: read, none⟩

/-- One byte read. -/
def Utf8State.step (s : Utf8State) (byte : UInt8) : Utf8State :=
  let b := byte.toNat
  match s.begun with
  | none => .lead s.read b
  | some p =>
    if p.low ≤ b ∧ b ≤ p.high then
      let bits := p.bits * 0x40 + b % 0x40
      if p.owed ≤ 1 then ⟨Char.ofNat bits :: s.read, none⟩
      else ⟨s.read, some ⟨p.owed - 1, 0x80, 0xBF, bits⟩⟩
    else .lead (replacementCharacter :: s.read) b

/-- The characters read when the bytes are at an end. -/
def Utf8State.finish (s : Utf8State) : List Char :=
  match s.begun with
  | none => s.read.reverse
  | some _ => (replacementCharacter :: s.read).reverse

/-- The characters that `bytes` hold, with a replacement character for each broken part. -/
def decode (bytes : List UInt8) : List Char :=
  (bytes.foldl Utf8State.step ⟨[], none⟩).finish

/-- The bytes of a text. -/
def encode (text : String) : List UInt8 :=
  text.toUTF8.toList

end SeviriImagery.Text
