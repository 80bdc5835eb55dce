import SeviriImagery.Packing
import SeviriImagery.Proofs.Word

/-!
# Packed samples are found again

A data field is one long number in base 256, and a sample of it is a few neighbouring bits of that
number.  Both the sink and the source of the packer are such numbers as well: what a sink has
written and holds back, what a source holds and has not read.  Putting a sample moves the number
of a sink up and adds the sample at its end (`BitSink.value_put`); taking one cuts the front off
the number of a source (`BitSource.value_take`).

So unpacking gives the bits at their places, whichever way it goes (`unpack_eq_ok`), and of what was
packed these are the samples, cut to their bits (`unpack_pack`).  All this is about samples whose bits
a size can count, for the length of a data field is reckoned from their number
(`packedLength_eq`).
-/

namespace SeviriImagery.Packing

/-- The length of a data field is that of its bits, if a size can count them. -/
theorem packedLength_eq {bits count : Nat} (hfits : count * bits < Size.limit) :
    packedLength bits count = (count * bits + 7) / 8 := by
  rw [packedLength, Size.mul_of_lt hfits]

/-- The number that `bits` bits of a data field make up, from the one at `start` on; bit 0 is the
most significant one of the first byte. -/
def bitsAt (data : List UInt8) (start bits : Nat) : Nat :=
  Word.ofBytes data / 2 ^ (8 * data.length - (start + bits)) % 2 ^ bits

/-- A data field is less than the power of two that its bits span. -/
theorem ofBytes_lt_two_pow (data : List UInt8) : Word.ofBytes data < 2 ^ (8 * data.length) := by
  rw [Nat.pow_mul]
  exact Word.ofBytes_lt data

/-- Low bits of a number can be looked for behind its front. -/
theorem mod_two_pow_div_mod {v k m b : Nat} (hin : k + b ≤ m) :
    v % 2 ^ m / 2 ^ k % 2 ^ b = v / 2 ^ k % 2 ^ b := by
  obtain ⟨rest, rfl⟩ : ∃ rest, m = k + rest := ⟨m - k, by omega⟩
  rw [Nat.pow_add, Nat.mod_mul_right_div_self, Nat.mod_mod_of_dvd _ (Nat.pow_dvd_pow 2 (by omega))]

theorem div_two_pow_of_lt {v low k : Nat} (hlow : low < 2 ^ k) : (v * 2 ^ k + low) / 2 ^ k = v := by
  rw [Nat.mul_comm, Nat.mul_add_div (Nat.two_pow_pos k), Nat.div_eq_of_lt hlow, Nat.add_zero]

namespace BitSource

/-- The number of the bits that a source has to give. -/
def value (s : BitSource) : Nat := s.held * 2 ^ (8 * s.rest.length) + Word.ofBytes s.rest

/-- How many bits a source has to give. -/
def size (s : BitSource) : Nat := s.count + 8 * s.rest.length

theorem value_div (s : BitSource) : s.value / 2 ^ (8 * s.rest.length) = s.held :=
  div_two_pow_of_lt (ofBytes_lt_two_pow s.rest)

theorem value_mod (s : BitSource) : s.value % 2 ^ (8 * s.rest.length) = Word.ofBytes s.rest := by
  rw [value, Nat.mul_comm, Nat.mul_add_mod, Nat.mod_eq_of_lt (ofBytes_lt_two_pow s.rest)]

/-- Reading bytes into a source leaves it what it has to give. -/
theorem refill_spec {bits held count : Nat} {rest : List UInt8} :
    (refill bits held count rest).value = (⟨held, count, rest⟩ : BitSource).value ∧
      (refill bits held count rest).size = (⟨held, count, rest⟩ : BitSource).size ∧
      (bits ≤ count + 8 * rest.length → bits ≤ (refill bits held count rest).count) := by
  induction rest generalizing held count with
  | nil => exact ⟨rfl, rfl, fun hbits => hbits⟩
  | cons b rest ih =>
      unfold refill
      by_cases henough : bits ≤ count
      · rw [if_pos henough]
        exact ⟨rfl, rfl, fun _ => henough⟩
      · rw [if_neg henough]
        obtain ⟨hvalue, hsize, hcount⟩ := @ih (held * 256 + b.toNat) (count + 8)
        refine ⟨?_, ?_, ?_⟩
        · have hspan : 2 ^ (8 * (b :: rest).length) = 256 * 256 ^ rest.length := by
            rw [Nat.pow_mul, List.length_cons, Nat.pow_succ, Nat.mul_comm]
          have hrest : 2 ^ (8 * rest.length) = 256 ^ rest.length := Nat.pow_mul 2 8 rest.length
          rw [hvalue, value, value, hspan, hrest, Word.ofBytes_cons]
          grind
        · rw [hsize]
          simp only [size, List.length_cons]
          omega
        · intro hbits
          rw [List.length_cons] at hbits
          exact hcount (by omega)

/-- Taking bits from a source takes them from the front of its number. -/
theorem value_take {s : BitSource} {bits : Nat} (hbits : bits ≤ s.size) :
    (s.take bits).1 = s.value / 2 ^ (s.size - bits) ∧
      (s.take bits).2.value = s.value % 2 ^ (s.size - bits) ∧
      (s.take bits).2.size = s.size - bits := by
  obtain ⟨hvalue, hsize, hcount⟩ := @refill_spec bits s.held s.count s.rest
  have henough := hcount hbits
  have hsame : (⟨s.held, s.count, s.rest⟩ : BitSource) = s := rfl
  rw [hsame] at hvalue hsize
  unfold take
  simp only [Nat.shiftRight_eq_div_pow, Nat.one_shiftLeft]
  generalize refill bits s.held s.count s.rest = full at hvalue hsize henough
  have hspan : s.size - bits = 8 * full.rest.length + (full.count - bits) := by
    rw [← hsize, size]
    omega
  rw [hspan, ← hvalue, Nat.pow_add]
  refine ⟨?_, ?_, ?_⟩
  · rw [← Nat.div_div_eq_div_mul, value_div]
  · rw [Nat.mod_mul, value_div, value_mod, value]
    simp only
    rw [Nat.mul_comm, Nat.add_comm]
  · simp only [size]
    omega

/-- The samples that a source gives are the bits of its number, from the front on. -/
theorem samples_eq {bits n : Nat} {s : BitSource} {taken : Array Nat} (hsize : n * bits ≤ s.size)
    (hvalue : s.value < 2 ^ s.size) :
    samples bits n s taken = taken ++ Array.ofFn (n := n) fun i =>
      s.value / 2 ^ (s.size - (i * bits + bits)) % 2 ^ bits := by
  induction n generalizing s taken with
  | zero => simp [samples]
  | succ n ih =>
      rw [Nat.succ_mul] at hsize
      obtain ⟨hfirst, hnext, hrest⟩ := value_take (s := s) (show bits ≤ s.size by omega)
      have hsmall : s.value / 2 ^ (s.size - bits) < 2 ^ bits := by
        apply Nat.div_lt_of_lt_mul
        rwa [← Nat.pow_add, Nat.sub_add_cancel (by omega)]
      have hothers := @ih (s.take bits).2 (taken.push (s.take bits).1) (by rw [hrest]; omega)
        (by rw [hnext, hrest]; exact Nat.mod_lt _ (Nat.two_pow_pos _))
      have hshift : ∀ i : Fin n, (s.take bits).2.value /
          2 ^ ((s.take bits).2.size - (i * bits + bits)) % 2 ^ bits =
            s.value / 2 ^ (s.size - ((i + 1) * bits + bits)) % 2 ^ bits := by
        intro i
        have hi : i * bits + bits ≤ n * bits := by
          rw [← Nat.succ_mul]
          exact Nat.mul_le_mul_right bits i.isLt
        have hplace : s.size - bits - (i * bits + bits) = s.size - ((i + 1) * bits + bits) := by
          rw [Nat.succ_mul]
          omega
        rw [hnext, hrest, hplace, mod_two_pow_div_mod (by rw [Nat.succ_mul]; omega)]
      have hzero : s.value / 2 ^ (s.size - (0 * bits + bits)) % 2 ^ bits =
          s.value / 2 ^ (s.size - bits) := by
        rw [Nat.zero_mul, Nat.zero_add, Nat.mod_eq_of_lt hsmall]
      rw [samples]
      simp only [hothers, hshift]
      rw [Array.ofFn_succ', ← Array.append_assoc, Array.append_singleton, hfirst]
      simp only [Fin.val_zero, Fin.val_succ, hzero]

end BitSource

/-- Bits that make up whole bytes are the number of these bytes. -/
theorem bitsAt_bytes {data : List UInt8} {start width : Nat} (hin : start + width ≤ data.length) :
    bitsAt data (8 * start) (8 * width) = Word.field data start width := by
  have hfield : ((data.drop start).take width).length = width := by
    rw [List.length_take, List.length_drop]
    omega
  have hrest : data.length - (start + width) = ((data.drop start).drop width).length := by
    rw [List.length_drop, List.length_drop, Nat.sub_add_eq]
  have hsplit : Word.ofBytes data =
      Word.ofBytes (data.take start) * 256 ^ (data.drop start).length +
        (Word.field data start width * 2 ^ (8 * ((data.drop start).drop width).length) +
          Word.ofBytes ((data.drop start).drop width)) := by
    rw [Nat.pow_mul, Word.field, ← Word.ofBytes_append, List.take_append_drop,
      ← Word.ofBytes_append, List.take_append_drop]
  have hfront : (256 : Nat) ^ (data.drop start).length =
      2 ^ (8 * width) * 2 ^ (8 * ((data.drop start).drop width).length) := by
    rw [← Nat.pow_add, ← Nat.mul_add, Nat.pow_mul, ← hfield, ← List.length_append,
      hfield, List.take_append_drop]
  have hlow := ofBytes_lt_two_pow ((data.drop start).drop width)
  have hsmall : Word.field data start width < 2 ^ (8 * width) := by
    rw [Nat.pow_mul]
    exact Word.field_lt data start width
  rw [bitsAt, ← Nat.mul_add, ← Nat.mul_sub, hrest, hsplit, hfront, ← Nat.mul_assoc,
    ← Nat.add_assoc, ← Nat.add_mul, div_two_pow_of_lt hlow, Nat.mul_comm, Nat.mul_add_mod,
    Nat.mod_eq_of_lt hsmall]

/-- Eight bits are a byte. -/
theorem bitsAt_byte {data : List UInt8} {p : Nat} (hp : p < data.length) :
    bitsAt data (8 * p) 8 = data[p].toNat := by
  have hfield : Word.field data p 1 = data[p].toNat := by
    rw [Word.field, List.drop_eq_getElem_cons hp]
    show Word.ofBytes [data[p]] = _
    simp [Word.ofBytes]
  have hbits : bitsAt data (8 * p) (8 * 1) = Word.field data p 1 := bitsAt_bytes hp
  rw [← hfield, ← hbits]

/-- Pairs of bytes are words of two bytes, one behind the other. -/
theorem pairs_eq (data : List UInt8) (taken : Array Nat) :
    pairs data taken =
      taken ++ Array.ofFn (n := data.length / 2) fun i => Word.field data (2 * i) 2 := by
  fun_induction pairs data taken with
  | case1 high low rest taken ih =>
      have hpair : (Array.ofFn (n := (high :: low :: rest).length / 2) fun i =>
          Word.field (high :: low :: rest) (2 * i) 2) =
            #[high.toNat * 256 + low.toNat] ++
              Array.ofFn (n := rest.length / 2) fun i => Word.field rest (2 * i) 2 := by
        apply Array.ext
        · rw [Array.size_ofFn, Array.size_append, Array.size_ofFn]
          simp only [List.length_cons, List.size_toArray, List.length_nil]
          omega
        · intro i hi hi'
          rw [Array.getElem_ofFn]
          cases i with
          | zero =>
              show Word.ofBytes [high, low] = _
              rw [Array.getElem_append_left (by simp)]
              simp [Word.ofBytes]
          | succ i =>
              rw [Array.getElem_append_right (by simp), Array.getElem_ofFn]
              rfl
      rw [ih, hpair, ← Array.append_assoc, Array.append_singleton]
  | case2 data taken hshort =>
      have hempty : data.length / 2 = 0 := by
        cases data with
        | nil => exact Nat.zero_div 2
        | cons high behind =>
            cases behind with
            | nil => exact Nat.div_eq_of_lt (by simp)
            | cons low rest => exact absurd rfl (hshort high low rest)
      have hnone : (Array.ofFn (n := data.length / 2) fun i => Word.field data (2 * i) 2) = #[] := by
        rw [← Array.size_eq_zero_iff, Array.size_ofFn, hempty]
      rw [hnone, Array.append_empty]

/-- **Unpacking.**  A data field that is long enough gives the samples whose bits stand in it,
each at its place. -/
theorem unpack_eq_ok {data : List UInt8} {bits count : Nat} (hfits : count * bits < Size.limit)
    (hbits : 1 ≤ bits ∧ bits ≤ 16) (hlength : packedLength bits count ≤ data.length) :
    unpack data bits count =
      .ok (Array.ofFn (n := count) fun i => bitsAt data (i * bits) bits) := by
  have hneeded : ¬data.length < packedLength bits count := Nat.not_lt.mpr hlength
  rw [unpack, if_neg (not_not.mpr hbits)]
  simp only [hneeded, if_false]
  rw [packedLength_eq hfits] at hlength ⊢
  by_cases h8 : bits = 8
  · subst h8
    rw [if_pos rfl, if_neg (by omega)]
    refine congrArg Except.ok (Array.ext (by simp; omega) ?_)
    intro i hi hi'
    rw [Array.size_ofFn] at hi'
    have hin : i < data.length := by omega
    rw [Array.getElem_ofFn, Nat.mul_comm i 8, bitsAt_byte hin]
    simp
  · rw [if_neg h8]
    by_cases h16 : bits = 16
    · subst h16
      have hneed : (count * 16 + 7) / 8 = 2 * count := by omega
      have htaken : (data.take (2 * count)).length = 2 * count := by
        rw [List.length_take]
        omega
      rw [if_pos rfl, hneed, pairs_eq, Array.empty_append]
      refine congrArg Except.ok (Array.ext (by simp; omega) ?_)
      intro i hi hi'
      rw [Array.size_ofFn] at hi'
      have hpair : bitsAt data (i * 16) 16 = Word.field data (2 * i) 2 := by
        have hplace : i * 16 = 8 * (2 * i) := by omega
        rw [hplace]
        exact bitsAt_bytes (show 2 * i + 2 ≤ data.length by omega)
      rw [Array.getElem_ofFn, Array.getElem_ofFn, hpair, Word.field, Word.field, List.drop_take,
        List.take_take, Nat.min_eq_left (show 2 ≤ 2 * count - 2 * i by omega)]
    · have hwhole : (⟨0, 0, data⟩ : BitSource).value = Word.ofBytes data := by
        rw [BitSource.value, Nat.zero_mul, Nat.zero_add]
      have hsize : (⟨0, 0, data⟩ : BitSource).size = 8 * data.length := Nat.zero_add _
      have hcount : count ≤ 8 * ((count * bits + 7) / 8) / bits :=
        (Nat.le_div_iff_mul_le hbits.1).mpr (by omega)
      rw [if_neg h16, Nat.min_eq_left hcount, BitSource.samples_eq (by rw [hsize]; omega)
        (by rw [hwhole, hsize]; exact ofBytes_lt_two_pow data), Array.empty_append]
      simp only [hwhole, hsize, bitsAt]

/-- The number that samples make up, `bits` bits of each. -/
def packedValue (bits : Nat) (samples : List Nat) : Nat :=
  samples.foldl (fun value count => value * 2 ^ bits + count % 2 ^ bits) 0

/-- Samples in front of others stand above them. -/
theorem packedValue_append (bits : Nat) (a b : List Nat) :
    packedValue bits (a ++ b) = packedValue bits a * 2 ^ (b.length * bits) + packedValue bits b := by
  induction b using List.reverseRecOn with
  | nil => simp [packedValue]
  | append_singleton b count ih =>
      have hlast : ∀ front : List Nat, packedValue bits (front ++ [count]) =
          packedValue bits front * 2 ^ bits + count % 2 ^ bits := by
        intro front
        rw [packedValue, List.foldl_append]
        rfl
      rw [← List.append_assoc, hlast, ih, hlast, List.length_append, List.length_singleton,
        Nat.succ_mul, Nat.pow_add]
      grind

theorem packedValue_lt (bits : Nat) (samples : List Nat) :
    packedValue bits samples < 2 ^ (samples.length * bits) := by
  induction samples with
  | nil => simp [packedValue]
  | cons count samples ih =>
      have hfirst : packedValue bits [count] < 2 ^ bits := by
        simp [packedValue, Nat.mod_lt _ (Nat.two_pow_pos bits)]
      have hcons := packedValue_append bits [count] samples
      rw [List.singleton_append] at hcons
      rw [hcons, List.length_cons, Nat.succ_mul, Nat.add_comm (samples.length * bits), Nat.pow_add]
      calc packedValue bits [count] * 2 ^ (samples.length * bits) + packedValue bits samples
          < (packedValue bits [count] + 1) * 2 ^ (samples.length * bits) := by
            rw [Nat.succ_mul]
            exact Nat.add_lt_add_left ih _
        _ ≤ 2 ^ bits * 2 ^ (samples.length * bits) := Nat.mul_le_mul_right _ hfirst

/-- A sample stands at its place in the number of them all. -/
theorem packedValue_div_mod (bits : Nat) (samples : List Nat) {i : Nat} (hi : i < samples.length) :
    packedValue bits samples / 2 ^ ((samples.length - (i + 1)) * bits) % 2 ^ bits =
      samples[i] % 2 ^ bits := by
  have hsplit : samples = samples.take i ++ ([samples[i]] ++ samples.drop (i + 1)) := by
    rw [List.singleton_append, ← List.drop_eq_getElem_cons hi, List.take_append_drop]
  have hlength : samples.length - (i + 1) = (samples.drop (i + 1)).length := List.length_drop.symm
  have hone : packedValue bits [samples[i]] = samples[i] % 2 ^ bits := by simp [packedValue]
  have hlow := packedValue_lt bits (samples.drop (i + 1))
  have hvalue : packedValue bits samples =
      (packedValue bits (samples.take i) * 2 ^ bits + samples[i] % 2 ^ bits) *
        2 ^ ((samples.drop (i + 1)).length * bits) + packedValue bits (samples.drop (i + 1)) := by
    conv_lhs => rw [hsplit]
    rw [packedValue_append, packedValue_append, hone, List.length_append, List.length_singleton,
      Nat.add_mul, Nat.one_mul, Nat.pow_add]
    grind
  rw [hvalue, hlength, div_two_pow_of_lt hlow, Nat.mul_comm, Nat.mul_add_mod, Nat.mod_mod]

namespace BitSink

/-- The number of the bits that were put into a sink. -/
def value (s : BitSink) : Nat := Word.ofBytes s.bytes.toList * 2 ^ s.count + s.held

/-- How many bits were put into a sink. -/
def size (s : BitSink) : Nat := 8 * s.bytes.size + s.count

/-- Writing the bytes that are full changes neither the bits of a sink nor their number, and leaves
less than a byte. -/
theorem flush_spec {s : BitSink} (hheld : s.held < 2 ^ s.count) :
    s.flush.value = s.value ∧ s.flush.size = s.size ∧ s.flush.count < 8 ∧
      s.flush.held < 2 ^ s.flush.count := by
  fun_induction flush s with
  | case1 s hcount => exact ⟨rfl, rfl, hcount, hheld⟩
  | case2 s hcount rest ih =>
      simp only [Nat.shiftRight_eq_div_pow, Nat.one_shiftLeft] at ih ⊢
      have hspan : s.count = rest + 8 := by omega
      have hbyte : s.held / 2 ^ rest < 256 := by
        apply Nat.div_lt_of_lt_mul
        rw [hspan, Nat.pow_add] at hheld
        exact hheld
      obtain ⟨hvalue, hsize, hless, hnext⟩ := ih (Nat.mod_lt _ (Nat.two_pow_pos rest))
      refine ⟨?_, ?_, hless, hnext⟩
      · have hwhole := Nat.div_add_mod s.held (2 ^ rest)
        rw [hvalue, value, value, Array.toList_push, Word.ofBytes_append_singleton,
          UInt8.toNat_ofNat', Nat.mod_eq_of_lt hbyte, hspan, Nat.pow_add]
        grind
      · rw [hsize]
        simp only [size, Array.size_push]
        omega

/-- A sink between two samples: less than a byte is held back. -/
def IsSettled (s : BitSink) : Prop := s.count < 8 ∧ s.held < 2 ^ s.count

/-- The bits held back and those of one more sample make up no more bits than both. -/
theorem held_lt {s : BitSink} (hs : s.IsSettled) (bits count : Nat) :
    s.held * 2 ^ bits + count % 2 ^ bits < 2 ^ (s.count + bits) := by
  obtain ⟨-, hheld⟩ := hs
  have hsample : count % 2 ^ bits < 2 ^ bits := Nat.mod_lt _ (Nat.two_pow_pos bits)
  rw [Nat.pow_add]
  calc s.held * 2 ^ bits + count % 2 ^ bits < (s.held + 1) * 2 ^ bits := by
        rw [Nat.succ_mul]
        exact Nat.add_lt_add_left hsample _
    _ ≤ 2 ^ s.count * 2 ^ bits := Nat.mul_le_mul_right _ hheld

/-- A settled sink has room for one more sample. -/
theorem held_lt_width {s : BitSink} {bits : Nat} (hs : s.IsSettled) (hbits : bits ≤ 16)
    (count : Nat) : s.held * 2 ^ bits + count % 2 ^ bits < 2 ^ width := by
  have hless := hs.1
  exact Nat.lt_of_lt_of_le (held_lt hs bits count)
    (Nat.pow_le_pow_right (by decide) (by unfold width; omega))

/-- Putting a sample adds its lowest bits behind all others, and none of them is lost. -/
theorem value_put {s : BitSink} {bits : Nat} (hs : s.IsSettled) (hbits : bits ≤ 16) (count : Nat) :
    (s.put bits count).value = s.value * 2 ^ bits + count % 2 ^ bits ∧
      (s.put bits count).size = s.size + bits ∧ (s.put bits count).IsSettled := by
  have hroom := held_lt_width hs hbits count
  simp only [put, Nat.shiftLeft_eq, Nat.one_mul, Nat.min_eq_left hbits, Nat.mod_eq_of_lt hroom]
  obtain ⟨hvalue, hsize, hsettled⟩ := flush_spec
    (s := ⟨s.bytes, s.held * 2 ^ bits + count % 2 ^ bits, s.count + bits⟩) (held_lt hs bits count)
  refine ⟨?_, ?_, hsettled⟩
  · rw [hvalue, value, value, Nat.pow_add]
    grind
  · rw [hsize, size, size, Nat.add_assoc]

/-- Putting samples one after the other puts the number that they make up. -/
theorem value_foldl_put {s : BitSink} {bits : Nat} (hs : s.IsSettled) (hbits : bits ≤ 16)
    (samples : List Nat) :
    (samples.foldl (fun sink count => sink.put bits count) s).value =
        s.value * 2 ^ (samples.length * bits) + packedValue bits samples ∧
      (samples.foldl (fun sink count => sink.put bits count) s).size =
        s.size + samples.length * bits ∧
      (samples.foldl (fun sink count => sink.put bits count) s).IsSettled := by
  induction samples generalizing s with
  | nil => exact ⟨by simp [packedValue], by simp, hs⟩
  | cons count samples ih =>
      obtain ⟨hvalue, hsize, hsettled⟩ := value_put hs hbits count
      obtain ⟨hvalues, hsizes, hend⟩ := ih hsettled
      have hone : packedValue bits [count] = count % 2 ^ bits := by simp [packedValue]
      have hcons := packedValue_append bits [count] samples
      rw [List.singleton_append, hone] at hcons
      rw [List.foldl_cons, List.length_cons, Nat.succ_mul]
      refine ⟨?_, ?_, hend⟩
      · rw [hvalues, hvalue, hcons, Nat.add_comm (samples.length * bits), Nat.pow_add]
        grind
      · rw [hsizes, hsize]
        omega

/-- The sink to which some samples have been written. -/
def ofSamples (bits : Nat) (samples : List Nat) : BitSink :=
  samples.foldl (fun sink count => sink.put bits count) empty

/-- A sink has the bits of its samples and no others, and less than a byte of them is held back. -/
theorem ofSamples_spec {bits : Nat} (hbits : bits ≤ 16) (samples : List Nat) :
    (ofSamples bits samples).value = packedValue bits samples ∧
      (ofSamples bits samples).size = samples.length * bits ∧
        (ofSamples bits samples).IsSettled := by
  have hempty : empty.IsSettled := ⟨by decide, by decide⟩
  obtain ⟨hvalue, hsize, hsettled⟩ := value_foldl_put hempty hbits samples
  refine ⟨hvalue.trans ?_, hsize.trans (Nat.zero_add _), hsettled⟩
  rw [show empty.value = 0 from rfl, Nat.zero_mul, Nat.zero_add]

/-- Closing a sink fills the last byte up with zeros. -/
theorem ofBytes_close {s : BitSink} (hs : s.IsSettled) :
    s.close.length = (s.size + 7) / 8 ∧
      Word.ofBytes s.close = s.value * 2 ^ (8 * s.close.length - s.size) := by
  obtain ⟨hless, hheld⟩ := hs
  simp only [close, Nat.shiftLeft_eq]
  by_cases hzero : s.count = 0
  · have hnone : s.held = 0 := by simpa [hzero] using hheld
    rw [if_pos hzero, Array.length_toList, size, value, hzero, hnone]
    refine ⟨by omega, ?_⟩
    simp
  · have hlast : s.held * 2 ^ (8 - s.count) < 256 := by
      calc s.held * 2 ^ (8 - s.count) < 2 ^ s.count * 2 ^ (8 - s.count) :=
            Nat.mul_lt_mul_of_pos_right hheld (Nat.two_pow_pos _)
        _ = 256 := by rw [← Nat.pow_add, Nat.add_sub_cancel' (by omega)]
    rw [if_neg hzero, Array.toList_push, List.length_append, Array.length_toList,
      List.length_singleton, size]
    refine ⟨by omega, ?_⟩
    have hpad : 8 * (s.bytes.size + 1) - (8 * s.bytes.size + s.count) = 8 - s.count := by omega
    have hbyte : (256 : Nat) = 2 ^ s.count * 2 ^ (8 - s.count) := by
      rw [← Nat.pow_add, Nat.add_sub_cancel' (by omega)]
    rw [hpad, Word.ofBytes_append_singleton, UInt8.toNat_ofNat', Nat.mod_eq_of_lt hlast, value,
      Nat.add_mul, Nat.mul_assoc, ← hbyte]

end BitSink

/-- What is packed is what a sink holds to which the samples have been written. -/
theorem pack_eq_close (samples : Array Nat) (bits : Nat) :
    pack samples bits = (BitSink.ofSamples bits samples.toList).close := by
  rw [pack, BitSink.ofSamples, Array.foldl_toList]

/-- The data field of packed samples has as many bytes as they need, and they stand at its front. -/
theorem ofBytes_pack (samples : Array Nat) {bits : Nat} (hbits : bits ≤ 16) :
    (pack samples bits).length = (samples.size * bits + 7) / 8 ∧
      Word.ofBytes (pack samples bits) = packedValue bits samples.toList *
        2 ^ (8 * (pack samples bits).length - samples.size * bits) := by
  obtain ⟨hvalue, hsize, hsettled⟩ := BitSink.ofSamples_spec hbits samples.toList
  obtain ⟨hlength, hbytes⟩ := BitSink.ofBytes_close hsettled
  rw [hsize, Array.length_toList] at hlength hbytes
  rw [hvalue] at hbytes
  rw [pack_eq_close]
  exact ⟨hlength, hbytes⟩

/-- **What was packed is unpacked**, cut to the bits of a sample. -/
theorem unpack_pack {samples : Array Nat} {bits : Nat} (hfits : samples.size * bits < Size.limit)
    (hbits : 1 ≤ bits ∧ bits ≤ 16) :
    unpack (pack samples bits) bits samples.size = .ok (samples.map (· % 2 ^ bits)) := by
  obtain ⟨hlength, hvalue⟩ := ofBytes_pack samples hbits.2
  rw [unpack_eq_ok hfits hbits (Nat.le_of_eq ((packedLength_eq hfits).trans hlength.symm))]
  refine congrArg Except.ok (Array.ext (by simp) ?_)
  intro i hi hi'
  rw [Array.size_ofFn] at hi
  have hplaces : (i + 1) * bits ≤ samples.size * bits := Nat.mul_le_mul_right bits hi
  have hroom : samples.size * bits ≤ 8 * (pack samples bits).length := by
    rw [hlength]
    omega
  have hbehind : 8 * (pack samples bits).length - (i * bits + bits) =
      8 * (pack samples bits).length - samples.size * bits + (samples.size - (i + 1)) * bits := by
    have hnext : i * bits + bits = (i + 1) * bits := (Nat.succ_mul i bits).symm
    rw [hnext, Nat.sub_mul]
    omega
  have hsample := packedValue_div_mod bits samples.toList (i := i) (by simpa using hi)
  simp only [Array.length_toList, Array.getElem_toList] at hsample
  rw [Array.getElem_ofFn, Array.getElem_map, bitsAt, hbehind, hvalue, Nat.pow_add,
    ← Nat.div_div_eq_div_mul, Nat.mul_div_cancel _ (Nat.two_pow_pos _), hsample]

end SeviriImagery.Packing
