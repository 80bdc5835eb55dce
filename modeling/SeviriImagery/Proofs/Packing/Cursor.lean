import SeviriImagery.Proofs.Outcome
import SeviriImagery.Proofs.Packing.Inverse

/-!
# Samples bit by bit

Bit 0 of a data field is the most significant one of its first byte, and the bits of one sample
follow those of the one before.  `bitNumber` reads a sample bit by bit, as the format has it.

A machine does not go bit by bit.  A `BitCursor` stands at a bit of a byte and takes a sample in up
to three parts: what is left of the byte that it stands in, the whole bytes behind it, and the front
of the byte in which the sample ends.  Its registers are narrow and cut off what does not fit, and a
byte that the data does not have is a fault.  For as long as the data has bits for one more sample,
a turn of the cursor gives the number of the next bits (`BitCursor.next_of_enough`), and then it
stops (`BitCursor.next_of_short`); so it asks for no byte outside the data, and never stops early
(`BitCursor.run_eq`).  Unpacking gives what the cursor gives, at every depth, also at those for which
it takes another way.

That unpacking succeeds only if the data has all the bits is true of bits that a size can count.  Of
others it may find that they take no byte at all (`unpack_gone_round`).
-/

namespace SeviriImagery.Packing

/-- Bit `k` of a data field; bit 0 is the most significant one of the first byte. -/
def bit (data : List UInt8) (k : Nat) : Nat := (data.getD (k / 8) 0).toNat / 2 ^ (7 - k % 8) % 2

/-- The number that `bits` bits make up, from the one at `start` on, the most significant one
first. -/
def bitNumber (data : List UInt8) (start : Nat) : (bits : Nat) → Nat
  | 0 => 0
  | bits + 1 => bitNumber data start bits * 2 + bit data (start + bits)

section Bits

variable {data : List UInt8} {start bits a b : Nat}

theorem bitsAt_lt (data : List UInt8) (start bits : Nat) : bitsAt data start bits < 2 ^ bits :=
  Nat.mod_lt _ (Nat.two_pow_pos bits)

/-- Some bits and those behind them make up one number. -/
theorem bitsAt_add (hin : start + (a + b) ≤ 8 * data.length) :
    bitsAt data start (a + b) = bitsAt data start a * 2 ^ b + bitsAt data (start + a) b := by
  have hbehind : 8 * data.length - (start + a) = 8 * data.length - (start + (a + b)) + b := by omega
  rw [bitsAt, bitsAt, bitsAt, hbehind, Nat.add_assoc start a b]
  generalize 8 * data.length - (start + (a + b)) = behind
  rw [Nat.pow_add 2 behind b, ← Nat.div_div_eq_div_mul, Nat.add_comm a b, Nat.pow_add, Nat.mod_mul,
    Nat.mul_comm (2 ^ b), Nat.add_comm]

/-- The front of some bits. -/
theorem bitsAt_div (hbits : a + b = bits) (hin : start + bits ≤ 8 * data.length) :
    bitsAt data start bits / 2 ^ b = bitsAt data start a := by
  subst hbits
  rw [bitsAt_add hin, div_two_pow_of_lt (bitsAt_lt data (start + a) b)]

/-- The end of some bits. -/
theorem bitsAt_mod (hbits : a + b = bits) (hin : start + bits ≤ 8 * data.length) :
    bitsAt data start bits % 2 ^ b = bitsAt data (start + a) b := by
  subst hbits
  rw [bitsAt_add hin, Nat.mul_comm, Nat.mul_add_mod, Nat.mod_eq_of_lt (bitsAt_lt data (start + a) b)]

/-- One bit is a bit of its byte. -/
theorem bitsAt_one {k : Nat} (hk : k < 8 * data.length) : bitsAt data k 1 = bit data k := by
  have hp : k / 8 < data.length := by omega
  have hbyte : data.getD (k / 8) 0 = data[k / 8] := by
    rw [List.getD_eq_getElem?_getD, List.getElem?_eq_getElem hp, Option.getD_some]
  have hplace : 8 * (k / 8) + k % 8 = k := Nat.div_add_mod k 8
  have hfront : bitsAt data (8 * (k / 8)) 8 / 2 ^ (7 - k % 8) =
      bitsAt data (8 * (k / 8)) (k % 8 + 1) := bitsAt_div (by omega) (by omega)
  have hlast : bitsAt data (8 * (k / 8)) (k % 8 + 1) % 2 ^ 1 =
      bitsAt data (8 * (k / 8) + k % 8) 1 := bitsAt_mod (by omega) (by omega)
  rw [hplace, Nat.pow_one] at hlast
  rw [bit, hbyte, ← bitsAt_byte hp, hfront, hlast]

/-- The bits at a place make up the number that they make up one by one. -/
theorem bitsAt_eq_bitNumber (hin : start + bits ≤ 8 * data.length) :
    bitsAt data start bits = bitNumber data start bits := by
  induction bits with
  | zero => rw [bitsAt, Nat.pow_zero, Nat.mod_one, bitNumber]
  | succ bits ih =>
      rw [bitsAt_add hin, ih (by omega), bitsAt_one (by omega), Nat.pow_one, bitNumber]

theorem bitNumber_lt (data : List UInt8) (start bits : Nat) :
    bitNumber data start bits < 2 ^ bits := by
  induction bits with
  | zero => exact Nat.one_pos
  | succ bits ih =>
      have hbit : bit data (start + bits) < 2 := Nat.mod_lt _ (by decide)
      rw [bitNumber, Nat.pow_succ]
      omega

/-- A number of bits does not depend on what stands behind them. -/
theorem bitNumber_congr {other : List UInt8}
    (hsame : ∀ k, k < start + bits → bit other k = bit data k) :
    bitNumber other start bits = bitNumber data start bits := by
  induction bits with
  | zero => rfl
  | succ bits ih =>
      rw [bitNumber, bitNumber, ih fun k hk => hsame k (by omega), hsame _ (by omega)]

/-- The front of a data field has the same bits. -/
theorem bit_take {n k : Nat} (hk : k < 8 * n) : bit (data.take n) k = bit data k := by
  have hp : k / 8 < n := by omega
  rw [bit, bit, List.getD_eq_getElem?_getD, List.getD_eq_getElem?_getD, List.getElem?_take_of_lt hp]

end Bits

/-- A byte was asked for that a data field does not have. -/
structure MissingByte where
  position : Nat
deriving DecidableEq, Repr

/-- A byte of a data field. -/
def byteAt (data : List UInt8) (p : Nat) : Except MissingByte Nat :=
  if h : p < data.length then .ok data[p].toNat else .error ⟨p⟩

/-- Where the next bit is read: the byte in which it stands, and the bits of it that are used up. -/
structure BitCursor where
  position : Nat
  used : Nat

namespace BitCursor

/-- A cursor at the first bit. -/
def start : BitCursor := ⟨0, 0⟩

/-- The bits of the register in which a sample is put together. -/
def width : Nat := 32

/-- The cursor `size` bits on. -/
def skip (c : BitCursor) (size : Nat) : BitCursor :=
  ⟨c.position + (c.used + size) / 8, (c.used + size) % 8⟩

/-- Whether a data field of `length` bytes has no `size` bits for the cursor any more. -/
def isAtEnd (c : BitCursor) (size length : Nat) : Bool :=
  size == 0 || length ≤ c.position || length < (c.skip size).position ||
    ((c.skip size).position == length && 0 < (c.skip size).used)

/-- A register with `bits` bits pushed into it from the right. -/
def push (register bits low : Nat) : Nat := (register <<< bits) % (1 <<< width) ||| low

/-- A register with `n` whole bytes pushed into it, from the one at `p` on. -/
def pushBytes (data : List UInt8) : (n p register : Nat) → Except MissingByte Nat
  | 0, _, register => .ok register
  | n + 1, p, register => do
      let byte ← byteAt data p
      pushBytes data n (p + 1) (push register 8 byte)

/-- The next `size` bits: what is left of the byte, whole bytes, and the front of the last one. -/
def read (data : List UInt8) (size : Nat) (c : BitCursor) : Except MissingByte Nat := do
  let behind := c.skip size
  let first ← byteAt data c.position
  let left := ((first <<< c.used) % 256) >>> c.used
  if behind.position = c.position then return left >>> (8 - behind.used)
  let whole ← pushBytes data (behind.position - (c.position + 1)) (c.position + 1) left
  if behind.used = 0 then return whole
  let last ← byteAt data behind.position
  return push whole behind.used (last >>> (8 - behind.used))

/-- One turn: the next sample and the cursor behind it, or nothing at the end. -/
def next (data : List UInt8) (size : Nat) (c : BitCursor) :
    Except MissingByte (Option (Nat × BitCursor)) :=
  if c.isAtEnd size data.length then .ok none
  else (c.read data size).map fun sample => some (sample, c.skip size)

/-- The samples of `count` turns, or of fewer if the end comes first. -/
def run (data : List UInt8) (size : Nat) : (count : Nat) → BitCursor → Except MissingByte (List Nat)
  | 0, _ => .ok []
  | count + 1, c => do
      match ← c.next data size with
      | none => return []
      | some (sample, behind) => return sample :: (← behind.run data size count)

/-- The bits in front of a cursor. -/
def passed (c : BitCursor) : Nat := 8 * c.position + c.used

variable {data : List UInt8} {size : Nat} {c : BitCursor}

theorem used_skip_lt (c : BitCursor) (size : Nat) : (c.skip size).used < 8 :=
  Nat.mod_lt _ (by decide)

theorem passed_skip (c : BitCursor) (size : Nat) : (c.skip size).passed = c.passed + size := by
  simp only [passed, skip]
  omega

/-- The four signs of an end say that fewer than `size` bits are left, or that no bits are asked
for. -/
theorem isAtEnd_iff (hused : c.used < 8) :
    c.isAtEnd size data.length = true ↔ size = 0 ∨ 8 * data.length < c.passed + size := by
  simp only [isAtEnd, Bool.or_eq_true, Bool.and_eq_true, beq_iff_eq, decide_eq_true_eq]
  simp only [passed, skip]
  omega

theorem byteAt_eq {p : Nat} (hp : p < data.length) :
    byteAt data p = .ok (bitsAt data (8 * p) 8) := by
  rw [byteAt, dif_pos hp, bitsAt_byte hp]

/-- The register takes up the bits behind those that it holds, as long as they fit into it. -/
theorem push_bitsAt {first a b : Nat} (hin : first + (a + b) ≤ 8 * data.length)
    (hwidth : a + b ≤ width) :
    push (bitsAt data first a) b (bitsAt data (first + a) b) = bitsAt data first (a + b) := by
  have hfits : bitsAt data first a * 2 ^ b < 2 ^ width :=
    calc bitsAt data first a * 2 ^ b < 2 ^ a * 2 ^ b :=
          Nat.mul_lt_mul_of_pos_right (bitsAt_lt data first a) (Nat.two_pow_pos b)
      _ = 2 ^ (a + b) := (Nat.pow_add 2 a b).symm
      _ ≤ 2 ^ width := Nat.pow_le_pow_right (by decide) hwidth
  have hlow := bitsAt_lt data (first + a) b
  rw [push, Nat.one_shiftLeft, Nat.shiftLeft_eq, Nat.mod_eq_of_lt hfits, ← Nat.shiftLeft_eq,
    ← Nat.shiftLeft_add_eq_or_of_lt hlow, Nat.shiftLeft_eq, bitsAt_add hin]

/-- Whole bytes pushed into a register make its bits longer by theirs. -/
theorem pushBytes_eq {n p first a : Nat} (hplace : first + a = 8 * p) (hin : p + n ≤ data.length)
    (hwidth : a + 8 * n ≤ width) :
    pushBytes data n p (bitsAt data first a) = .ok (bitsAt data first (a + 8 * n)) := by
  induction n generalizing p a with
  | zero => rfl
  | succ n ih =>
      rw [pushBytes, byteAt_eq (by omega), Outcome.ok_bind, ← hplace,
        push_bitsAt (by omega) (by omega), ih (by omega) (by omega) (by omega)]
      congr 2
      omega

/-- What is left of a byte are its last bits. -/
theorem left_eq (hused : c.used < 8) (hin : c.position < data.length) :
    ((bitsAt data (8 * c.position) 8 <<< c.used) % 256) >>> c.used =
      bitsAt data c.passed (8 - c.used) := by
  have hback : bitsAt data (8 * c.position) 8 % 2 ^ (8 - c.used) =
      bitsAt data (8 * c.position + c.used) (8 - c.used) := bitsAt_mod (by omega) (by omega)
  have hspan : (256 : Nat) = 2 ^ (8 - c.used) * 2 ^ c.used := by
    rw [← Nat.pow_add, Nat.sub_add_cancel (by omega)]
  rw [passed, ← hback, Nat.shiftLeft_eq, Nat.shiftRight_eq_div_pow, hspan,
    Nat.mul_mod_mul_right, Nat.mul_div_cancel _ (Nat.two_pow_pos c.used)]

/-- The front of a byte are its first bits. -/
theorem front_eq {p n : Nat} (hn : n ≤ 8) (hp : p < data.length) :
    bitsAt data (8 * p) 8 >>> (8 - n) = bitsAt data (8 * p) n := by
  rw [Nat.shiftRight_eq_div_pow]
  exact bitsAt_div (Nat.add_sub_cancel' hn) (by omega)

/-- The cursor reads the number of the next bits, and no byte that is not there. -/
theorem read_eq (hused : c.used < 8) (hsize : 0 < size) (hwidth : size ≤ width)
    (hin : c.passed + size ≤ 8 * data.length) :
    c.read data size = .ok (bitsAt data c.passed size) := by
  have hend := passed_skip c size
  have hless := used_skip_lt c size
  unfold passed at hin hend
  unfold read
  generalize c.skip size = behind at hend hless
  simp only [byteAt_eq (show c.position < data.length by omega), Outcome.ok_bind,
    left_eq hused (show c.position < data.length by omega)]
  by_cases hone : behind.position = c.position
  · -- the sample ends in the byte in which it begins
    have hfront : bitsAt data c.passed (8 - c.used) / 2 ^ (8 - behind.used) =
        bitsAt data c.passed size := bitsAt_div (by omega) (by unfold passed; omega)
    rw [if_pos hone, Nat.shiftRight_eq_div_pow, hfront]
    rfl
  · have hbytes : pushBytes data (behind.position - (c.position + 1)) (c.position + 1)
        (bitsAt data c.passed (8 - c.used)) = .ok (bitsAt data c.passed
          (8 - c.used + 8 * (behind.position - (c.position + 1)))) :=
      pushBytes_eq (by unfold passed; omega) (by omega) (by omega)
    rw [if_neg hone, hbytes]
    simp only [Outcome.ok_bind]
    by_cases hwhole : behind.used = 0
    · rw [if_pos hwhole]
      show Except.ok _ = Except.ok _
      congr 2
      omega
    · have hparts : 8 - c.used + 8 * (behind.position - (c.position + 1)) + behind.used = size := by
        omega
      have hplace : 8 * behind.position =
          c.passed + (8 - c.used + 8 * (behind.position - (c.position + 1))) := by
        unfold passed
        omega
      rw [if_neg hwhole, byteAt_eq (by omega)]
      simp only [Outcome.ok_bind]
      rw [front_eq (by omega) (by omega), hplace, push_bitsAt (by unfold passed; omega) (by omega),
        hparts]
      rfl

/-- With bits left for one more sample, a turn gives it and goes on behind it. -/
theorem next_of_enough (hused : c.used < 8) (hsize : 0 < size) (hwidth : size ≤ width)
    (hin : c.passed + size ≤ 8 * data.length) :
    c.next data size = .ok (some (bitsAt data c.passed size, c.skip size)) := by
  have hgoes : ¬c.isAtEnd size data.length = true := by
    rw [isAtEnd_iff hused]
    omega
  rw [next, if_neg hgoes, read_eq hused hsize hwidth hin, Outcome.ok_map]

/-- With too few bits left, it stops. -/
theorem next_of_short (hused : c.used < 8)
    (hshort : size = 0 ∨ 8 * data.length < c.passed + size) : c.next data size = .ok none := by
  rw [next, if_pos ((isAtEnd_iff hused).mpr hshort)]

/-- **A cursor gives all samples that the data has**, up to as many as are wanted. -/
theorem run_eq (hused : c.used < 8) (hwidth : size ≤ width) (count : Nat) :
    c.run data size count =
      .ok ((List.range (min count ((8 * data.length - c.passed) / size))).map fun i =>
        bitsAt data (c.passed + i * size) size) := by
  induction count generalizing c with
  | zero => simp [run]
  | succ count ih =>
      by_cases hshort : size = 0 ∨ 8 * data.length < c.passed + size
      · have hnone : (8 * data.length - c.passed) / size = 0 := by
          rw [Nat.div_eq_zero_iff]
          omega
        rw [run, next_of_short hused hshort, hnone, Nat.min_zero]
        rfl
      · have hsize : 0 < size := by omega
        have hturn : (8 * data.length - c.passed) / size =
            (8 * data.length - (c.skip size).passed) / size + 1 := by
          rw [passed_skip, Nat.sub_add_eq, ← Nat.add_div_right _ hsize,
            Nat.sub_add_cancel (by omega)]
        have hshift : ∀ i, c.passed + (i + 1) * size = (c.skip size).passed + i * size := by
          intro i
          rw [passed_skip, Nat.succ_mul]
          omega
        rw [run, next_of_enough hused hsize hwidth (by omega)]
        simp only [Outcome.ok_bind]
        rw [ih (used_skip_lt c size), hturn, Nat.add_min_add_right, List.range_succ_eq_map]
        simp only [List.map_cons, List.map_map, Nat.zero_mul, Nat.add_zero]
        show Except.ok _ = Except.ok _
        congr 2
        exact List.map_congr_left fun i _ => by rw [Function.comp, Nat.succ_eq_add_one, hshift]

end BitCursor

/-- Samples fill a data field up to the last one if their bits do. -/
theorem packedLength_le_iff {bits count length : Nat} (hfits : count * bits < Size.limit) :
    packedLength bits count ≤ length ↔ count * bits ≤ 8 * length := by
  rw [packedLength_eq hfits]
  omega

/-- What is unpacked is what a cursor gives on the bytes that the samples take. -/
theorem run_start {data : List UInt8} {bits count : Nat} (hfits : count * bits < Size.limit)
    (hbits : 1 ≤ bits ∧ bits ≤ 16) (hroom : count * bits ≤ 8 * data.length) :
    BitCursor.start.run (data.take (packedLength bits count)) bits count =
      .ok ((List.range count).map fun i => bitNumber data (i * bits) bits) := by
  have hlength : (data.take (packedLength bits count)).length = packedLength bits count := by
    rw [List.length_take, Nat.min_eq_left ((packedLength_le_iff hfits).mpr hroom)]
  have hneeded : count * bits ≤ 8 * packedLength bits count :=
    (packedLength_le_iff hfits).mp (Nat.le_refl _)
  have hcount : count ≤ 8 * packedLength bits count / bits :=
    (Nat.le_div_iff_mul_le hbits.1).mpr hneeded
  have hpassed : BitCursor.start.passed = 0 := rfl
  rw [BitCursor.run_eq (by decide) (Nat.le_trans hbits.2 (by decide)), hlength, hpassed,
    Nat.sub_zero, Nat.min_eq_left hcount]
  refine congrArg Except.ok (List.map_congr_left fun i hi => ?_)
  have hplace : i * bits + bits ≤ count * bits := by
    rw [← Nat.succ_mul]
    exact Nat.mul_le_mul_right bits (List.mem_range.mp hi)
  rw [Nat.zero_add, bitsAt_eq_bitNumber (by rw [hlength]; omega)]
  exact bitNumber_congr fun k hk => bit_take (by omega)

/-- Unpacking succeeds with the numbers of the bits at the places of the samples, and in no other
way. -/
theorem unpack_eq_ok_iff {data : List UInt8} {bits count : Nat} {samples : Array Nat}
    (hfits : count * bits < Size.limit) :
    unpack data bits count = .ok samples ↔
      (1 ≤ bits ∧ bits ≤ 16) ∧ count * bits ≤ 8 * data.length ∧
        samples = Array.ofFn (n := count) fun i => bitNumber data (i * bits) bits := by
  have hnumbers : count * bits ≤ 8 * data.length →
      (Array.ofFn (n := count) fun i => bitsAt data (i * bits) bits) =
        Array.ofFn (n := count) fun i => bitNumber data (i * bits) bits := by
    intro hroom
    refine congrArg Array.ofFn (funext fun i => bitsAt_eq_bitNumber ?_)
    have hplace := Nat.mul_le_mul_right bits i.isLt
    rw [Nat.succ_mul] at hplace
    omega
  constructor
  · intro hunpack
    obtain ⟨hbits, hlength⟩ := enough_of_unpack hunpack
    have hroom := (packedLength_le_iff hfits).mp hlength
    rw [unpack_eq_ok hfits hbits hlength, hnumbers hroom] at hunpack
    exact ⟨hbits, hroom, (Except.ok.inj hunpack).symm⟩
  · intro hgiven
    obtain ⟨hbits, hroom, rfl⟩ := hgiven
    rw [unpack_eq_ok hfits hbits ((packedLength_le_iff hfits).mpr hroom), hnumbers hroom]

/-- **Unpacking meets the format bit by bit**, as long as a size can count the bits.  It succeeds
exactly if the samples have a depth of 1 to 16 bits and the data has all of their bits.  Then there
are as many samples as were asked for; each is the number of the bits at its place and no greater
than these allow, and two data fields that agree up to the end of a sample agree in it.  Whichever
way unpacking goes, a cursor gives the same samples, without a stop before the last of them and
without a byte outside the data. -/
theorem unpack_bit_by_bit (data : List UInt8) (bits count : Nat)
    (hfits : count * bits < Size.limit) :
    ((∃ samples, unpack data bits count = .ok samples) ↔
      (1 ≤ bits ∧ bits ≤ 16) ∧ count * bits ≤ 8 * data.length) ∧
    ∀ samples, unpack data bits count = .ok samples →
      samples.size = count ∧
      (∀ i (hi : i < samples.size),
        samples[i] = bitNumber data (i * bits) bits ∧ samples[i] < 2 ^ bits) ∧
      (∀ (other : List UInt8) (n : Nat) (others : Array Nat),
        n * bits < Size.limit → unpack other bits n = .ok others →
        ∀ i (hi : i < samples.size) (hi' : i < others.size),
          (∀ k, k < (i + 1) * bits → bit other k = bit data k) → others[i] = samples[i]) ∧
      BitCursor.start.run (data.take (packedLength bits count)) bits count =
        .ok samples.toList := by
  constructor
  · constructor
    · intro hgiven
      obtain ⟨samples, hunpack⟩ := hgiven
      obtain ⟨hbits, hroom, -⟩ := (unpack_eq_ok_iff hfits).mp hunpack
      exact ⟨hbits, hroom⟩
    · intro hgiven
      obtain ⟨hbits, hroom⟩ := hgiven
      exact ⟨_, (unpack_eq_ok_iff hfits).mpr ⟨hbits, hroom, rfl⟩⟩
  · intro samples hunpack
    obtain ⟨hbits, hroom, hsamples⟩ := (unpack_eq_ok_iff hfits).mp hunpack
    refine ⟨by rw [hsamples, Array.size_ofFn], ?_, ?_, ?_⟩
    · intro i hi
      have hnumber : samples[i] = bitNumber data (i * bits) bits := by
        simp only [hsamples, Array.getElem_ofFn]
      exact ⟨hnumber, hnumber ▸ bitNumber_lt data (i * bits) bits⟩
    · intro other n others hroom' hother i hi hi' hsame
      obtain ⟨-, -, hothers⟩ := (unpack_eq_ok_iff hroom').mp hother
      simp only [hsamples, hothers, Array.getElem_ofFn]
      refine bitNumber_congr fun k hk => hsame k ?_
      rwa [Nat.succ_mul]
    · rw [run_start hfits hbits hroom, hsamples, Array.toList_ofFn, List.ofFn_eq_map,
        ← List.map_coe_finRange_eq_range, List.map_map]
      rfl

/-- Four samples of ten bits fill five bytes.  The second one ends in the third byte, so that it is
the same if the bits behind it are others. -/
theorem unpack_bit_by_bit_tenBits :
    unpack [0xff, 0xc0, 0x18, 0x01, 0x55] 10 4 = .ok #[0x3ff, 0x001, 0x200, 0x155] ∧
      bitNumber [0xff, 0xc0, 0x18, 0x01, 0x55] 20 10 = 0x200 ∧
      BitCursor.start.run [0xff, 0xc0, 0x18, 0x01, 0x55] 10 4 =
        .ok [0x3ff, 0x001, 0x200, 0x155] ∧
      ∀ others, unpack [0xff, 0xc0, 0x1f] 10 2 = .ok others → ∀ hi : 1 < others.size,
        others[1] = 0x001 := by
  have hread : unpack [0xff, 0xc0, 0x18, 0x01, 0x55] 10 4 =
      .ok #[0x3ff, 0x001, 0x200, 0x155] := by rfl
  obtain ⟨-, hspec⟩ := unpack_bit_by_bit [0xff, 0xc0, 0x18, 0x01, 0x55] 10 4 (by decide)
  obtain ⟨-, hnumbers, hfront, hrun⟩ := hspec _ hread
  refine ⟨hread, (hnumbers 2 (by decide)).1.symm, hrun, ?_⟩
  intro others hother hi
  exact hfront _ 2 others (by decide) hother 1 (by decide) hi (by decide)

/-- **Bits that no size can count go round.**  Nothing at all is unpacked with success, although many
samples of sixteen bits were asked for, and there is not one of them. -/
theorem unpack_gone_round :
    unpack [] 16 (2 ^ 60) = .ok #[] ∧ ¬2 ^ 60 * 16 ≤ 8 * ([] : List UInt8).length ∧
      (#[] : Array Nat).size ≠ 2 ^ 60 :=
  ⟨by rfl, by decide, by decide⟩

end SeviriImagery.Packing
