import Mathlib
import SeviriImagery.Word.Floating

/-!
# Words written and read

A field of a file is a number in base 256 of a fixed width.  Digits and number determine each
other, as long as the width is kept: `toBytes_ofBytes` gives back the digits and
`ofBytes_toBytes` the number.  From the two follows what a record needs, that a word read where it
was written is the same word.

Signed words are reckoned with where a product is turned: a positive factor becomes negative and comes
back as its magnitude, and an offset is counted from the other side and back.
-/

namespace SeviriImagery.Word

/-- Reading the digits written gives the number back, up to the width. -/
theorem ofBytes_toBytes (width n : Nat) : ofBytes (toBytes width n) = n % 256 ^ width := by
  induction width generalizing n with
  | zero => simp [toBytes, ofBytes, Nat.mod_one]
  | succ width ih =>
      have hbyte : (UInt8.ofNat n).toNat = n % 256 := by simp
      rw [toBytes, ofBytes_append_singleton, ih, hbyte, Nat.pow_succ, Nat.mul_comm (256 ^ width),
        Nat.mod_mul]
      omega

theorem ofBytes_nil : ofBytes [] = 0 := rfl

/-- Digits in front of others count for a power of 256 each. -/
theorem ofBytes_append (a b : List UInt8) :
    ofBytes (a ++ b) = ofBytes a * 256 ^ b.length + ofBytes b := by
  induction b using List.reverseRecOn with
  | nil => simp [ofBytes_nil]
  | append_singleton b x ih =>
      rw [← List.append_assoc, ofBytes_append_singleton, ih, ofBytes_append_singleton,
        List.length_append, List.length_singleton, Nat.pow_succ]
      grind

/-- The first byte counts the most. -/
theorem ofBytes_cons (x : UInt8) (b : List UInt8) :
    ofBytes (x :: b) = x.toNat * 256 ^ b.length + ofBytes b := by
  have h := ofBytes_append [x] b
  simpa [ofBytes] using h

/-- Bytes hold a number below the power of 256 that belongs to their length. -/
theorem ofBytes_lt (bytes : List UInt8) : ofBytes bytes < 256 ^ bytes.length := by
  induction bytes with
  | nil => simp [ofBytes_nil]
  | cons x rest ih =>
      have hx : x.toNat < 256 := x.toNat_lt
      have hstep : (x.toNat + 1) * 256 ^ rest.length ≤ 256 * 256 ^ rest.length :=
        Nat.mul_le_mul_right _ hx
      rw [ofBytes_cons, List.length_cons, Nat.pow_succ]
      grind

/-- Writing the number read gives the digits back. -/
theorem toBytes_ofBytes (bytes : List UInt8) : toBytes bytes.length (ofBytes bytes) = bytes := by
  induction bytes using List.reverseRecOn with
  | nil => rfl
  | append_singleton b x ih =>
      have hx : x.toNat < 256 := x.toNat_lt
      have hdiv : (ofBytes b * 256 + x.toNat) / 256 = ofBytes b := by omega
      have hmod : UInt8.ofNat (ofBytes b * 256 + x.toNat) = x := by
        apply UInt8.toNat_inj.mp
        rw [UInt8.toNat_ofNat']
        omega
      rw [ofBytes_append_singleton, List.length_append, List.length_singleton, toBytes, hdiv, hmod, ih]

/-- The digits of a number in two bytes. -/
theorem toBytes_two (n : Nat) : toBytes 2 n = [UInt8.ofNat (n / 256), UInt8.ofNat n] := rfl

/-- A field that holds digits is the number of these digits. -/
theorem field_of_drop {buffer digits rest : List UInt8} {start : Nat}
    (hdrop : buffer.drop start = digits ++ rest) :
    field buffer start digits.length = ofBytes digits := by
  rw [field, hdrop, List.take_left']
  rfl

/-- A word that was laid down somewhere is read there, whatever stands behind it. -/
theorem uint16_of_drop {buffer : List UInt8} {start : Nat} {w : UInt16} (rest : List UInt8)
    (hdrop : buffer.drop start = bytes16 w ++ rest) : uint16 buffer start = w := by
  have hlimit : w.toNat < 256 ^ 2 := w.toNat_lt
  have hfield := field_of_drop hdrop
  rw [bytes16, length_toBytes, ofBytes_toBytes, Nat.mod_eq_of_lt hlimit] at hfield
  rw [uint16, hfield, UInt16.ofNat_toNat]

/-- A word of 32 bits is, too. -/
theorem uint32_of_drop {buffer : List UInt8} {start : Nat} {w : UInt32} (rest : List UInt8)
    (hdrop : buffer.drop start = bytes32 w ++ rest) : uint32 buffer start = w := by
  have hlimit : w.toNat < 256 ^ 4 := w.toNat_lt
  have hfield := field_of_drop hdrop
  rw [bytes32, length_toBytes, ofBytes_toBytes, Nat.mod_eq_of_lt hlimit] at hfield
  rw [uint32, hfield, UInt32.ofNat_toNat]

/-- A word of 64 bits is, too. -/
theorem uint64_of_drop {buffer : List UInt8} {start : Nat} {w : UInt64} (rest : List UInt8)
    (hdrop : buffer.drop start = bytes64 w ++ rest) : uint64 buffer start = w := by
  have hlimit : w.toNat < 256 ^ 8 := w.toNat_lt
  have hfield := field_of_drop hdrop
  rw [bytes64, length_toBytes, ofBytes_toBytes, Nat.mod_eq_of_lt hlimit] at hfield
  rw [uint64, hfield, UInt64.ofNat_toNat]

/-- A word with a sign is, too. -/
theorem int32_of_drop {buffer : List UInt8} {start : Nat} {w : Int32} (rest : List UInt8)
    (hdrop : buffer.drop start = bytesSigned32 w ++ rest) : int32 buffer start = w := by
  have hword : uint32 buffer start = w.toUInt32 := uint32_of_drop rest hdrop
  rw [int32, hword, Int32.toInt32_toUInt32]

/-- A field holds a number of its width. -/
theorem field_lt (buffer : List UInt8) (start width : Nat) : field buffer start width < 256 ^ width := by
  have hlt := ofBytes_lt ((buffer.drop start).take width)
  have hlength : ((buffer.drop start).take width).length ≤ width := List.length_take_le _ _
  exact Nat.lt_of_lt_of_le hlt (Nat.pow_le_pow_right (by decide) hlength)

/-- The digits of a field inside a buffer are the bytes that it was read from. -/
theorem toBytes_field {buffer : List UInt8} {start width : Nat}
    (hin : start + width ≤ buffer.length) :
    toBytes width (field buffer start width) = (buffer.drop start).take width := by
  have hlength : ((buffer.drop start).take width).length = width := by
    rw [List.length_take, List.length_drop]
    omega
  have hdigits := toBytes_ofBytes ((buffer.drop start).take width)
  rwa [hlength] at hdigits

/-- A byte depends on no other. -/
theorem byte_eq_take (buffer : List UInt8) (start : Nat) :
    byte buffer start = ((buffer.drop start).take 1).headD 0 := by
  rw [byte]
  cases buffer.drop start <;> rfl

/-- A byte inside a buffer is read where it stands. -/
theorem singleton_byte {buffer : List UInt8} {start : Nat} (hin : start < buffer.length) :
    [byte buffer start] = (buffer.drop start).take 1 := by
  rw [byte, List.drop_eq_getElem_cons hin]
  rfl

/-- The bytes of a word of 32 bits that was read are those that it was read from. -/
theorem bytes32_uint32 {buffer : List UInt8} {start : Nat} (hin : start + 4 ≤ buffer.length) :
    bytes32 (uint32 buffer start) = (buffer.drop start).take 4 := by
  have hlimit : field buffer start 4 < 2 ^ 32 := field_lt buffer start 4
  rw [bytes32, uint32, UInt32.toNat_ofNat', Nat.mod_eq_of_lt hlimit, toBytes_field hin]

/-- A word that was read is written with the bytes it was read from. -/
theorem bytes64_uint64 {buffer : List UInt8} {start : Nat} (hin : start + 8 ≤ buffer.length) :
    bytes64 (uint64 buffer start) = (buffer.drop start).take 8 := by
  have hlimit : field buffer start 8 < 2 ^ 64 := field_lt buffer start 8
  rw [bytes64, uint64, UInt64.toNat_ofNat', Nat.mod_eq_of_lt hlimit, toBytes_field hin]

variable {a : Int32}

/-- Only the least number has no opposite. -/
theorem toInt_neg_of_ne (ha : a ≠ Int32.minValue) : (-a).toInt = -a.toInt := by
  have hleast : a.toInt ≠ Int32.minValue.toInt := fun hsame => ha (Int32.toInt_inj.mp hsame)
  have hlower := a.le_toInt
  have hupper := a.toInt_lt
  rw [Int32.toInt_minValue] at hleast
  rw [Int32.toInt_neg]
  exact Int.bmod_eq_of_le (by omega) (by omega)

theorem ne_minValue_of_pos (ha : 0 < a) : a ≠ Int32.minValue := by
  rintro rfl
  exact absurd ha (by decide)

/-- The opposite of a number is negative just if the number is positive. -/
theorem neg_lt_zero_iff (ha : a ≠ Int32.minValue) : -a < 0 ↔ 0 < a := by
  rw [Int32.lt_iff_toInt_lt, Int32.lt_iff_toInt_lt, toInt_neg_of_ne ha, Int32.toInt_zero]
  omega

/-- A positive word is below zero once its sign is turned. -/
theorem neg_lt_zero_of_pos (ha : 0 < a) : -a < 0 :=
  (neg_lt_zero_iff (ne_minValue_of_pos ha)).mpr ha

/-- A positive word keeps its amount when its sign is turned. -/
theorem abs_neg_of_pos (ha : 0 < a) : (-a).abs = a := by
  have hneg : (-a).toBitVec.msb = true := by
    rw [BitVec.msb_eq_toInt, decide_eq_true_eq]
    exact Int32.lt_iff_toInt_lt.mp (neg_lt_zero_of_pos ha)
  have habs : (-a).abs.toBitVec = a.toBitVec := by
    show (-a).toBitVec.abs = a.toBitVec
    rw [BitVec.abs_eq, if_pos hneg, Int32.toBitVec_neg, BitVec.neg_neg]
  exact Int32.toBitVec_inj.mp habs

/-- An offset that is counted from the other side twice is the same again. -/
theorem sub_sub_self (size offset : Int32) : size - (size - offset) = offset := by
  rw [Int32.sub_eq_add_neg, Int32.neg_sub, Int32.add_comm, Int32.sub_add_cancel]

end SeviriImagery.Word
