import SeviriImagery.Proofs.Packing

/-!
# Packing and unpacking undo each other

What was unpacked is packed to the bytes that it was read from, but for the bits behind the last
sample, which become zero (`pack_unpack`).  As for packed samples that are unpacked, both sides are
numbers: the samples make up the front of the number of the data field
(`packedValue_bitsAt`), and filling up a byte with zeros is clearing what stands there
(`ofBytes_clearLast`).

Of samples whose bits no size can count this is not so: a data field may be unpacked to none of them
(`pack_unpack_gone_round`).
-/

namespace SeviriImagery.Packing

/-- Bytes of which the `unused` lowest bits of the last one are cleared. -/
def clearLast (unused : Nat) : List UInt8 → List UInt8
  | [] => []
  | [b] => [.ofNat (b.toNat >>> unused <<< unused)]
  | b :: next :: rest => b :: clearLast unused (next :: rest)

theorem length_clearLast (unused : Nat) (bytes : List UInt8) :
    (clearLast unused bytes).length = bytes.length := by
  fun_induction clearLast unused bytes with
  | case1 => rfl
  | case2 b => rfl
  | case3 b next rest ih => rw [List.length_cons, ih]; rfl

/-- Bits that are cleared are taken off the number of the bytes. -/
theorem ofBytes_clearLast {unused : Nat} (hunused : unused ≤ 8) (bytes : List UInt8) :
    Word.ofBytes (clearLast unused bytes) = Word.ofBytes bytes / 2 ^ unused * 2 ^ unused := by
  fun_induction clearLast unused bytes with
  | case1 => simp [Word.ofBytes_nil]
  | case2 b =>
      have hcleared : b.toNat / 2 ^ unused * 2 ^ unused < 256 :=
        Nat.lt_of_le_of_lt (Nat.div_mul_le_self _ _) b.toNat_lt
      have hbyte : ∀ c : UInt8, Word.ofBytes [c] = c.toNat := by simp [Word.ofBytes]
      rw [hbyte, hbyte, Nat.shiftRight_eq_div_pow, Nat.shiftLeft_eq, UInt8.toNat_ofNat',
        Nat.mod_eq_of_lt hcleared]
  | case3 b next rest ih =>
      have hspan : (256 : Nat) ^ (next :: rest).length =
          2 ^ (8 * (next :: rest).length - unused) * 2 ^ unused := by
        rw [← Nat.pow_add, Nat.sub_add_cancel (by rw [List.length_cons]; omega), Nat.pow_mul]
      rw [Word.ofBytes_cons, ih, length_clearLast, Word.ofBytes_cons b, hspan, ← Nat.mul_assoc,
        Nat.add_comm (_ * 2 ^ unused) (Word.ofBytes (next :: rest)),
        Nat.add_mul_div_right _ _ (Nat.two_pow_pos unused), Nat.add_mul, Nat.add_comm]

/-- Bytes of one length are known from their number. -/
theorem ofBytes_inj {a b : List UInt8} (hlength : a.length = b.length)
    (hvalue : Word.ofBytes a = Word.ofBytes b) : a = b := by
  rw [← Word.toBytes_ofBytes a, ← Word.toBytes_ofBytes b, hlength, hvalue]

/-- The front of some bytes is the front of their number. -/
theorem ofBytes_take (bytes : List UInt8) (n : Nat) :
    Word.ofBytes (bytes.take n) = Word.ofBytes bytes / 2 ^ (8 * (bytes.drop n).length) := by
  have hlow := ofBytes_lt_two_pow (bytes.drop n)
  have hsplit : Word.ofBytes bytes =
      Word.ofBytes (bytes.take n) * 2 ^ (8 * (bytes.drop n).length) +
        Word.ofBytes (bytes.drop n) := by
    rw [Nat.pow_mul, ← Word.ofBytes_append, List.take_append_drop]
  rw [hsplit, div_two_pow_of_lt hlow]

/-- A data field that is unpacked is long enough, and its samples have a depth that can be read. -/
theorem enough_of_unpack {data : List UInt8} {bits count : Nat} {samples : Array Nat}
    (hunpack : unpack data bits count = .ok samples) :
    (1 ≤ bits ∧ bits ≤ 16) ∧ packedLength bits count ≤ data.length := by
  simp only [unpack] at hunpack
  split at hunpack
  · cases hunpack
  · rename_i hbits
    split at hunpack
    · cases hunpack
    · rename_i hlength
      exact ⟨not_not.mp hbits, Nat.not_lt.mp hlength⟩

/-- A sample that was unpacked fits into its bits. -/
theorem lt_of_mem_unpack {data : List UInt8} {bits count n : Nat} {samples : Array Nat}
    (hfits : count * bits < Size.limit) (hunpack : unpack data bits count = .ok samples)
    (hn : n ∈ samples) : n < 2 ^ bits := by
  obtain ⟨hbits, hlength⟩ := enough_of_unpack hunpack
  rw [unpack_eq_ok hfits hbits hlength] at hunpack
  cases hunpack
  obtain ⟨i, rfl⟩ := Array.mem_ofFn.mp hn
  exact Nat.mod_lt _ (Nat.two_pow_pos bits)

/-- The samples of a data field, one behind the other, make up the front of its number. -/
theorem packedValue_bitsAt (data : List UInt8) (bits : Nat) {count : Nat}
    (hroom : count * bits ≤ 8 * data.length) :
    packedValue bits (List.ofFn (n := count) fun i => bitsAt data (i * bits) bits) =
      Word.ofBytes data / 2 ^ (8 * data.length - count * bits) := by
  induction count with
  | zero =>
      rw [Nat.zero_mul, Nat.sub_zero, Nat.div_eq_of_lt (ofBytes_lt_two_pow data)]
      rfl
  | succ count ih =>
      rw [Nat.succ_mul] at hroom
      have hone : ∀ sample, packedValue bits [sample] = sample % 2 ^ bits := by simp [packedValue]
      have hspan : 8 * data.length - count * bits =
          8 * data.length - (count * bits + bits) + bits := by omega
      rw [List.ofFn_succ', List.concat_eq_append, packedValue_append]
      simp only [Fin.val_castSucc, Fin.val_last, List.length_singleton, Nat.one_mul, hone]
      rw [ih (by omega), hspan, Nat.succ_mul count, bitsAt, Nat.mod_mod, Nat.pow_add,
        ← Nat.div_div_eq_div_mul, Nat.mul_comm _ (2 ^ bits), Nat.div_add_mod]

/-- **What was unpacked is packed as it was**, with the bits behind the last sample cleared. -/
theorem pack_unpack {data : List UInt8} {bits count : Nat} {samples : Array Nat}
    (hfits : count * bits < Size.limit) (hunpack : unpack data bits count = .ok samples) :
    pack samples bits = clearLast (8 * packedLength bits count - count * bits)
      (data.take (packedLength bits count)) := by
  obtain ⟨hbits, hlength⟩ := enough_of_unpack hunpack
  rw [unpack_eq_ok hfits hbits hlength] at hunpack
  cases hunpack
  obtain ⟨hsize, hvalue⟩ := ofBytes_pack
    (Array.ofFn (n := count) fun i => bitsAt data (i * bits) bits) hbits.2
  rw [Array.size_ofFn] at hsize hvalue
  rw [← packedLength_eq hfits] at hsize
  have htaken : (data.take (packedLength bits count)).length = packedLength bits count := by
    rw [List.length_take, Nat.min_eq_left hlength]
  have hneeded : count * bits ≤ 8 * packedLength bits count ∧
      8 * packedLength bits count - count * bits ≤ 8 := by
    rw [packedLength_eq hfits]
    omega
  apply ofBytes_inj
  · rw [hsize, length_clearLast, htaken]
  have hcut : 8 * data.length - count * bits =
      8 * (data.drop (packedLength bits count)).length +
        (8 * packedLength bits count - count * bits) := by
    rw [List.length_drop]
    omega
  rw [hvalue, hsize, Array.toList_ofFn, packedValue_bitsAt data bits (by omega),
    ofBytes_clearLast hneeded.2, ofBytes_take, Nat.div_div_eq_div_mul, ← Nat.pow_add, hcut]

/-- **Packing and unpacking are inverse to each other**, as long as a size can count the bits.  Packed
samples take the bytes that they need, and unpacked they are the samples again, cut to their bits.  On
the way, whatever samples have been written, the sink has the bits of all of them, written or held
back, and what one more sample adds to the bits held back has room.

Samples that were unpacked are packed to the bytes that they were read from, with the bits behind
the last sample cleared. -/
theorem unpack_pack_inverse :
    (∀ (samples : Array Nat) (bits : Nat), 1 ≤ bits → bits ≤ 16 →
      samples.size * bits < Size.limit →
      (pack samples bits).length = packedLength bits samples.size ∧
      pack samples bits = (BitSink.ofSamples bits samples.toList).close ∧
      (∀ written : List Nat,
        (BitSink.ofSamples bits written).value = packedValue bits written ∧
        (BitSink.ofSamples bits written).size = written.length * bits ∧
        ∀ count, (BitSink.ofSamples bits written).held * 2 ^ bits + count % 2 ^ bits <
          2 ^ BitSink.width) ∧
      unpack (pack samples bits) bits samples.size = .ok (samples.map (· % 2 ^ bits))) ∧
    ∀ (data : List UInt8) (bits count : Nat) (samples : Array Nat),
      count * bits < Size.limit → unpack data bits count = .ok samples →
      pack samples bits = clearLast (8 * packedLength bits count - count * bits)
        (data.take (packedLength bits count)) := by
  refine ⟨?_, fun data bits count samples => pack_unpack⟩
  intro samples bits hone hlimit hfits
  refine ⟨(ofBytes_pack samples hlimit).1.trans (packedLength_eq hfits).symm,
    pack_eq_close samples bits, ?_, unpack_pack hfits ⟨hone, hlimit⟩⟩
  intro written
  obtain ⟨hvalue, hsize, hsettled⟩ := BitSink.ofSamples_spec hlimit written
  exact ⟨hvalue, hsize, BitSink.held_lt_width hsettled hlimit⟩

/-- Five samples of ten bits fill seven bytes but for six bits; three samples of five bits leave one
bit of two bytes, which is lost with what stands behind them. -/
theorem unpack_pack_fiveSamples :
    (pack #[1023, 0, 512, 341, 1031] 10).length = 7 ∧
      unpack (pack #[1023, 0, 512, 341, 1031] 10) 10 5 = .ok #[1023, 0, 512, 341, 7] ∧
      unpack [0xb7, 0xff, 0x01] 5 3 = .ok #[22, 31, 31] ∧
      pack #[22, 31, 31] 5 = [0xb7, 0xfe] := by
  obtain ⟨hpacked, hunpacked⟩ := unpack_pack_inverse
  obtain ⟨hlength, -, -, hsamples⟩ :=
    hpacked #[1023, 0, 512, 341, 1031] 10 (by decide) (by decide) (by decide)
  have hread : unpack [0xb7, 0xff, 0x01] 5 3 = .ok #[22, 31, 31] := by rfl
  exact ⟨hlength, by simpa using hsamples, hread, hunpacked _ 5 3 _ (by decide) hread⟩

/-- **Bits that no size can count go round.**  The bits of these samples of ten bits go round twice and
leave eight, so that one byte is enough for all of them; there is no sample in it, and what is packed
again is not that byte. -/
theorem pack_unpack_gone_round :
    unpack [0xff] 10 3689348814741910324 = .ok #[] ∧ packedLength 10 3689348814741910324 = 1 ∧
      ∀ unused, pack #[] 10 ≠ clearLast unused (List.take 1 [0xff]) := by
  refine ⟨by rfl, by rfl, fun unused hsame => ?_⟩
  have hlength := congrArg List.length hsame
  rw [length_clearLast] at hlength
  exact absurd hlength (by decide)

end SeviriImagery.Packing
