import SeviriImagery.Proofs.Word.Order

/-!
# Whole numbers of 64 bits

A count of pixels is compared with numbers of 64 bits, and so it becomes one itself.  A number below
`2 ^ 53` becomes itself (`Float.value_ofNat`), and is itself again when it is taken back
(`Float.toNat_ofNat`).

It is written with as many binary places behind the point as fill up the mantissa.  This form is kept
by whatever is done to it: a mantissa that is full, with zeros behind it, is rounded to itself
(`UnpackedFloat.roundWithAccuracy_full`), and packing a number with a full mantissa loses nothing
(`UnpackedFloat.unpack_pack_full`).
-/

namespace SeviriImagery

open Float.Model (Format totalExponent)
open Float.Model.UnpackedFloat

namespace UnpackedFloat

/-- Zeros behind a mantissa are shifted out of it without loss. -/
theorem shift_zeros (mantissa places : Nat) :
    ExtendedMantissa.ofMantissaAndAccuracy (mantissa * 2 ^ places) .exact >>> places =
      ExtendedMantissa.ofMantissaAndAccuracy mantissa .exact := by
  induction places generalizing mantissa with
  | zero => rw [Nat.pow_zero, Nat.mul_one]; rfl
  | succ places ih =>
      have hstep : mantissa * 2 ^ (places + 1) = mantissa * 2 * 2 ^ places := by ring
      have hone : (ExtendedMantissa.ofMantissaAndAccuracy (mantissa * 2) .exact).shiftRightOne =
          ExtendedMantissa.ofMantissaAndAccuracy mantissa .exact := by
        simp [ExtendedMantissa.ofMantissaAndAccuracy, ExtendedMantissa.shiftRightOne]
      show (ExtendedMantissa.ofMantissaAndAccuracy (mantissa * 2 ^ (places + 1)) .exact >>>
        places).shiftRightOne = _
      rw [hstep, ih, hone]

/-- A mantissa of 53 bits, with an exponent that normal numbers have. -/
structure IsFull (mantissa : Nat) (exponent : Int) : Prop where
  above : 2 ^ 52 ≤ mantissa
  below : mantissa < 2 ^ 53
  least : -1074 ≤ exponent
  greatest : exponent ≤ 971

variable {m : Nat} {e : Int}

/-- A full mantissa is not zero. -/
theorem IsFull.pos (hfull : IsFull m e) : 0 < m := (Nat.two_pow_pos 52).trans_le hfull.above

/-- Zeros behind a full mantissa move its first digit up. -/
theorem IsFull.log2_mul (hfull : IsFull m e) (places : Nat) :
    (m * 2 ^ places).log2 = 52 + places := by
  have hpositive := Nat.two_pow_pos places
  refine (Nat.log2_eq_iff (Nat.mul_pos hfull.pos hpositive).ne').mpr ⟨?_, ?_⟩
  · rw [Nat.pow_add]
    exact Nat.mul_le_mul_right _ hfull.above
  · rw [Nat.add_right_comm, Nat.pow_add]
    exact Nat.mul_lt_mul_of_pos_right hfull.below hpositive

/-- The exponent of a number whose first digit has a place. -/
theorem targetExponent_eq (place : Int) :
    Format.binary64.targetExponent place = max (place - 53) (-1074) := rfl

/-- A number with a full mantissa and zeros behind it has the exponent of the mantissa alone. -/
theorem IsFull.targetExponent (hfull : IsFull m e) (places : Nat) :
    Format.binary64.targetExponent (totalExponent (m * 2 ^ places) (e - places)) = e := by
  have hleast := hfull.least
  rw [targetExponent_eq, totalExponent, hfull.log2_mul]
  omega

/-- Zeros behind a full mantissa are what is shifted out when it is rounded. -/
theorem IsFull.shiftToTargetExponent (hfull : IsFull m e) (places : Nat) :
    shiftToTargetExponent Format.binary64 (m * 2 ^ places) (e - places) .exact =
      (ExtendedMantissa.ofMantissaAndAccuracy m .exact, e) := by
  have hplaces : (e - (e - places)).toNat = places := by omega
  rw [Float.Model.UnpackedFloat.shiftToTargetExponent, hfull.targetExponent, shiftToExponent,
    hplaces, shift_zeros]
  simp

/-- **A full mantissa with zeros behind it is rounded to itself.** -/
theorem roundWithAccuracy_full (hfull : IsFull m e) (sign : Sign) (places : Nat) :
    roundWithAccuracy Format.binary64 sign (m * 2 ^ places) (e - places) .exact =
      .finite sign m e hfull.pos := by
  have hagain := hfull.shiftToTargetExponent 0
  rw [Nat.pow_zero, Nat.mul_one, Int.natCast_zero, Int.sub_zero] at hagain
  have hrounded : (ExtendedMantissa.ofMantissaAndAccuracy m .exact).roundedMantissa = m := rfl
  have hmantissa : (ExtendedMantissa.ofMantissaAndAccuracy m .exact).mantissa = m := rfl
  simp only [roundWithAccuracy, hfull.shiftToTargetExponent, hrounded, hagain, hmantissa,
    dif_neg hfull.pos.ne']

theorem unpackSign_packComponents (sign : Sign) (exponent : BitVec 11) (mantissa : BitVec 52) :
    Sign.ofBitVec (unpackSign (packComponents Format.binary64 sign exponent mantissa)) = sign := by
  have hbit : unpackSign (packComponents Format.binary64 sign exponent mantissa) =
      sign.toBitVec := by
    show (sign.toBitVec ++ exponent ++ mantissa).extractLsb' 63 1 = sign.toBitVec
    rw [BitVec.extractLsb'_append_eq_of_le (by decide),
      BitVec.extractLsb'_append_eq_of_le (by decide)]
    exact BitVec.extractLsb'_eq_self
  rw [hbit]
  cases sign <;> rfl

/-- An exponent that is neither the least nor the greatest stands before a mantissa of which the
first bit is left out. -/
theorem unpack_packComponents (sign : Sign) {exponent : BitVec 11} (hleast : exponent ≠ 0#11)
    (hgreatest : exponent ≠ -1#11) (mantissa : BitVec 52) :
    Float.Model.UnpackedFloat.unpack Format.binary64
        (packComponents Format.binary64 sign exponent mantissa) =
      .finite sign (1#1 ++ mantissa).toNat (exponent.toNat - 1075)
        (by rw [toNat_first_append]; omega) := by
  have hbias : ((Format.binary64.exponentBias : Int) + (52 : Nat)) = 1075 := rfl
  simp only [Float.Model.UnpackedFloat.unpack, unpackMantissa_packComponents,
    unpackExponent_packComponents, unpackSign_packComponents, if_neg hleast, if_neg hgreatest, hbias]

/-- **A number with a full mantissa is unpacked as it was packed.** -/
theorem unpack_pack_full (hfull : IsFull m e) (sign : Sign) :
    (Float.Model.pack (.finite sign m e hfull.pos)).unpack = .finite sign m e hfull.pos := by
  obtain ⟨habove, hbelow, hleast, hgreatest⟩ := id hfull
  have hlog : m.log2 = 52 := by simpa using hfull.log2_mul 0
  have hfield : (BitVec.ofNat 11 (e + 1075).toNat).toNat = (e + 1075).toNat := by
    rw [BitVec.toNat_ofNat]
    omega
  have hmantissa : (1#1 ++ BitVec.ofNat 52 m).toNat = m := by
    rw [toNat_first_append, BitVec.toNat_ofNat]
    omega
  have hpack : Float.Model.UnpackedFloat.pack Format.binary64 (.finite sign m e hfull.pos) =
      packComponents Format.binary64 sign (.ofNat 11 (e + 1075).toNat) (.ofNat 52 m) := by
    have hbiased : e + (Format.binary64.exponentBias : Int) + (52 : Nat) = e + 1075 := by
      show e + 1023 + 52 = e + 1075
      omega
    have hroom : ¬2 ^ 11 ≤ (e + 1075).toNat + 1 := by omega
    simp only [Float.Model.UnpackedFloat.pack, hbiased, if_neg hroom, hlog]
    rfl
  show Float.Model.UnpackedFloat.unpack Format.binary64
    (Float.Model.UnpackedFloat.pack Format.binary64 (.finite sign m e hfull.pos)) = _
  rw [hpack, unpack_packComponents]
  · simp only [hmantissa, hfield]
    congr 1
    omega
  · intro hzero
    have hnumber := congrArg BitVec.toNat hzero
    rw [hfield, BitVec.toNat_ofNat] at hnumber
    omega
  · intro hlast
    have hnumber := congrArg BitVec.toNat hlast
    have hvalue : (-1#11).toNat = 2047 := rfl
    rw [hfield, hvalue] at hnumber
    omega

section Whole

variable {n : Nat}

/-- The places behind the point by which a whole number is filled up to 53 bits. -/
def places (n : Nat) : Nat := 52 - n.log2

/-- A whole number in the form in which 64 bits hold it. -/
def whole (n : Nat) (hpositive : 0 < n) : Float.Model.UnpackedFloat :=
  .finite .positive (n * 2 ^ places n) (-(places n : Int))
    (Nat.mul_pos hpositive (Nat.two_pow_pos _))

/-- A whole number below the bound has a full mantissa once it is filled up. -/
theorem isFull_whole (hpositive : 0 < n) (hn : n < 2 ^ 53) :
    IsFull (n * 2 ^ places n) (-(places n : Int)) := by
  have hlog : n.log2 < 53 := (Nat.log2_lt hpositive.ne').mpr hn
  have hplaces : n.log2 + places n = 52 := by
    rw [places]
    omega
  have habove : 2 ^ (n.log2 + places n) ≤ n * 2 ^ places n := by
    rw [Nat.pow_add]
    exact Nat.mul_le_mul_right _ (Nat.log2_self_le hpositive.ne')
  have hbelow : n * 2 ^ places n < 2 ^ (n.log2 + 1 + places n) := by
    rw [Nat.pow_add]
    exact Nat.mul_lt_mul_of_pos_right Nat.lt_log2_self (Nat.two_pow_pos _)
  rw [hplaces] at habove
  rw [Nat.add_right_comm, hplaces] at hbelow
  exact ⟨habove, hbelow, by omega, by omega⟩

/-- A whole number is filled up and not rounded. -/
theorem round_whole (hpositive : 0 < n) (hn : n < 2 ^ 53) :
    Float.Model.UnpackedFloat.round Format.binary64 .positive n 0 = whole n hpositive := by
  have hlog : n.log2 < 53 := (Nat.log2_lt hpositive.ne').mpr hn
  have htarget : Format.binary64.targetExponent (totalExponent n 0) = -(places n : Int) := by
    rw [targetExponent_eq, totalExponent, places]
    omega
  have hexact := roundWithAccuracy_full (isFull_whole hpositive hn) .positive 0
  simp only [Float.Model.UnpackedFloat.round, htarget, decreaseExponent, Nat.shiftLeft_eq,
    Int.zero_sub, whole]
  simpa using hexact

/-- A whole number is stored as it is filled up. -/
theorem unpack_toFloat (hpositive : 0 < n) (hn : n < 2 ^ 53) :
    n.toUInt64.toFloat.toModel.unpack = whole n hpositive := by
  have hword : n.toUInt64.toNat = n := UInt64.toNat_ofNat_of_lt' (hn.trans (by decide))
  have hcompare : compare (n : Int) 0 = .gt := compare_gt_iff_gt.mpr (by omega)
  have hround : ofUInt64 Format.binary64 n.toUInt64 = whole n hpositive := by
    simp only [ofUInt64, ofNat, ofInt, Float.Model.UnpackedFloat.normalize, hword, hcompare,
      Int.toNat_natCast, round_whole hpositive hn]
  show (Float.Model.pack (ofUInt64 Format.binary64 n.toUInt64)).unpack = _
  rw [hround]
  exact unpack_pack_full (isFull_whole hpositive hn) .positive

/-- Multiplied by one, as it is where a numeral is read, a whole number stays as it is. -/
theorem unpack_ofNat (hpositive : 0 < n) (hn : n < 2 ^ 53) :
    (Float.ofNat n).toModel.unpack = whole n hpositive := by
  have hfull := isFull_whole hpositive hn
  have hone : (Float.ofBits 0x3ff0000000000000).toModel.unpack =
      .finite .positive (2 ^ 52) (-52) (by decide) := rfl
  have hproduct : Float.ofNat n = n.toUInt64.toFloat * Float.ofBits 0x3ff0000000000000 := by
    show Float.ofScientific n false 0 = _
    rw [Float.ofScientific, dif_pos ⟨hn, by decide⟩]
    rfl
  have hmul : mul Format.binary64 (whole n hpositive) (.finite .positive (2 ^ 52) (-52) (by decide)) =
      whole n hpositive := roundWithAccuracy_full hfull .positive 52
  rw [hproduct]
  show (Float.Model.pack (mul Format.binary64 n.toUInt64.toFloat.toModel.unpack
    (Float.ofBits 0x3ff0000000000000).toModel.unpack)).unpack = _
  rw [unpack_toFloat hpositive hn, hone, hmul]
  exact unpack_pack_full hfull .positive

end Whole

end UnpackedFloat

variable {n : Nat}

/-- A whole number of 53 bits is a number of 64 bits. -/
theorem Float.isNaN_ofNat (hn : n < 2 ^ 53) : (Float.ofNat n).isNaN = false := by
  show (Float.ofNat n).toModel.unpack.isNaN = false
  by_cases hzero : n = 0
  · subst hzero
    rfl
  · rw [UnpackedFloat.unpack_ofNat (Nat.pos_of_ne_zero hzero) hn]
    rfl

open UnpackedFloat in
/-- **It stands for itself.** -/
theorem Float.value_ofNat (hn : n < 2 ^ 53) : Float.value (Float.ofNat n) = n := by
  by_cases hzero : n = 0
  · subst hzero
    rw [Nat.cast_zero]
    rfl
  · rw [Float.value, unpack_ofNat (Nat.pos_of_ne_zero hzero) hn, whole, UnpackedFloat.value]
    have hreal : ((n * 2 ^ places n : ℕ) : ℝ) * 2 ^ (-(places n : ℤ)) = n := by
      rw [zpow_neg, zpow_natCast]
      push_cast
      field_simp
    rw [hreal]
    rfl

open UnpackedFloat in
/-- **And it is taken back as it was.** -/
theorem Float.toNat_toUInt64_ofNat (hn : n < 2 ^ 53) : (Float.ofNat n).toUInt64.toNat = n := by
  by_cases hzero : n = 0
  · subst hzero
    rfl
  · have hshift := shift_zeros n (places n)
    have hwhole : roundToInt .positive (n * 2 ^ places n) (-(places n : Int)) = n := by
      have hleft : (-(places n : Int) - 0).toNat = 0 := by omega
      have hright : (0 - (-(places n : Int) - (0 : Nat))).toNat = places n := by omega
      simp only [roundToInt, decreaseExponent, shiftToExponent, hleft, hright, Nat.shiftLeft_zero,
        hshift]
      rfl
    show (Float.ofNat n).toModel.unpack.toUInt64.toNat = n
    rw [unpack_ofNat (Nat.pos_of_ne_zero hzero) hn, whole, Float.Model.UnpackedFloat.toUInt64, toInt,
      hwhole, Int.toNat_natCast]
    exact UInt64.toNat_ofNatClamp_of_lt (hn.trans (by decide))

end SeviriImagery
