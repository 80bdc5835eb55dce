import SeviriImagery.Proofs.Word.Floating

/-!
# Numbers compared as what they stand for

A machine compares two numbers by their exponents, and by their mantissas only if these agree.  This
is the order of what they stand for because every mantissa has as many bits as there is room for,
unless the exponent is the least (`UnpackedFloat.isCanonical_unpack`): a greater exponent outweighs
whatever the mantissa below it holds.

So numbers of 64 bits, the infinite ones among them, are in the order of their values
(`Float.lt_iff`, `Float.le_iff`).  What is no number has no place in it.
-/

namespace SeviriImagery

open Float.Model (Format)
open Float.Model.UnpackedFloat (Sign)

namespace UnpackedFloat

/-- A mantissa and an exponent as 64 bits hold them: with 53 significant bits, or with fewer of them
at the least exponent. -/
structure IsScaled (mantissa : Nat) (exponent : Int) : Prop where
  below : mantissa < 2 ^ 53
  least : -1074 ≤ exponent
  full : 2 ^ 52 ≤ mantissa ∨ exponent = -1074

/-- A number in the form in which 64 bits hold it. -/
def IsCanonical : Float.Model.UnpackedFloat → Prop
  | .finite _ mantissa exponent _ => IsScaled mantissa exponent
  | _ => True

/-- A mantissa with the first bit, which is left out, put back. -/
theorem toNat_first_append (mantissa : BitVec 52) :
    (1#1 ++ mantissa).toNat = 2 ^ 52 + mantissa.toNat := by
  rw [BitVec.toNat_append, ← Nat.shiftLeft_add_eq_or_of_lt mantissa.isLt]
  rfl

/-- A number comes out of its bits in canonical form. -/
theorem isCanonical_unpack (bits : BitVec Format.binary64.numBits) :
    IsCanonical (.unpack Format.binary64 bits) := by
  have hbias : Format.binary64.exponentBias = 1023 := rfl
  fun_cases Float.Model.UnpackedFloat.unpack Format.binary64 bits
  case case1 | case2 | case3 => trivial
  case case4 fraction field exponent signField sign hlast hfield hfraction =>
    have hmantissa : fraction.toNat < 2 ^ 52 := fraction.isLt
    have hexponent : exponent + 1 = -1074 := by
      simp only [exponent, hfield, hbias]
      rfl
    exact ⟨by omega, by omega, .inr hexponent⟩
  case case5 fraction field exponent signField sign hlast hfield =>
    have hfraction : fraction.toNat < 2 ^ 52 := fraction.isLt
    have hmantissa : (1#1 ++ fraction).toNat = 2 ^ 52 + fraction.toNat :=
      toNat_first_append fraction
    have hexponent : exponent = (field.toNat : Int) - 1075 := by
      simp only [exponent, hbias]
      rfl
    have hpositive : field.toNat ≠ 0 := fun hzero => hfield (BitVec.eq_of_toNat_eq hzero)
    exact ⟨by omega, by omega, .inl (by omega)⟩

/-- What a number stands for; nothing is said of what is no number. -/
noncomputable def value : Float.Model.UnpackedFloat → EReal
  | .notANumber => 0
  | .infinity .negative => ⊥
  | .infinity .positive => ⊤
  | .zero _ => 0
  | .finite .negative mantissa exponent _ => ((-(mantissa * 2 ^ exponent) : ℝ) : EReal)
  | .finite .positive mantissa exponent _ => ((mantissa * 2 ^ exponent : ℝ) : EReal)

/-- The greater exponent makes the greater number. -/
theorem IsScaled.lt_of_exponent_lt {m m' : Nat} {e e' : Int} (hleft : IsScaled m e)
    (hright : IsScaled m' e') (hless : e < e') : (m * 2 ^ e : ℝ) < m' * 2 ^ e' := by
  have hleast := hleft.least
  have hlarge : (2 : ℝ) ^ 52 ≤ m' := by
    exact_mod_cast hright.full.resolve_right (by omega)
  calc (m * 2 ^ e : ℝ) < 2 ^ 53 * 2 ^ e := by
        gcongr
        exact_mod_cast hleft.below
    _ = 2 ^ 52 * 2 ^ (e + 1) := by
        rw [zpow_add_one₀ two_ne_zero]
        ring
    _ ≤ m' * 2 ^ e' := by
        gcongr
        · exact one_le_two
        · omega

/-- Exponents first and then mantissas give the order of the numbers. -/
theorem IsScaled.compare_then {m m' : Nat} {e e' : Int} (hleft : IsScaled m e)
    (hright : IsScaled m' e') :
    (compare e e').then (compare m m') = cmp (m * 2 ^ e : ℝ) (m' * 2 ^ e') := by
  rcases lt_trichotomy e e' with hless | rfl | hmore
  · rw [compare_lt_iff_lt.mpr hless, (cmp_eq_lt_iff _ _).mpr (hleft.lt_of_exponent_lt hright hless)]
    rfl
  · have hpositive : (0 : ℝ) < 2 ^ e := by positivity
    rw [cmp_mul_pos_right hpositive, Nat.strictMono_cast.cmp_map_eq, cmp_eq_compare,
      compare_eq_iff_eq.mpr rfl]
    rfl
  · rw [compare_gt_iff_gt.mpr hmore, (cmp_eq_gt_iff _ _).mpr (hright.lt_of_exponent_lt hleft hmore)]
    rfl

/-- A number with a minus sign is below zero. -/
theorem value_negative {m : Nat} (e : Int) (hm : 0 < m) : value (.finite .negative m e hm) < 0 :=
  EReal.coe_lt_coe_iff.mpr (neg_lt_zero.mpr (by positivity))

/-- A number with a plus sign is above zero. -/
theorem value_positive {m : Nat} (e : Int) (hm : 0 < m) : 0 < value (.finite .positive m e hm) :=
  EReal.coe_lt_coe_iff.mpr (by positivity)

/-- Whatever is a number is compared by what it stands for. -/
theorem compare_eq_cmp {u v : Float.Model.UnpackedFloat} (hu : IsCanonical u) (hv : IsCanonical v)
    (hleft : u.isNaN = false) (hright : v.isNaN = false) :
    u.compare v = some (cmp (value u) (value v)) := by
  have hless {a b : EReal} (hlt : a < b) : some .lt = some (cmp a b) :=
    congrArg some ((cmp_eq_lt_iff a b).mpr hlt).symm
  have hsame {a : EReal} : some .eq = some (cmp a a) := congrArg some (cmp_self_eq_eq a).symm
  have hmore {a b : EReal} (hlt : b < a) : some .gt = some (cmp a b) :=
    congrArg some ((cmp_eq_gt_iff a b).mpr hlt).symm
  cases u with
  | notANumber => cases hleft
  | infinity s =>
      cases v with
      | notANumber => cases hright
      | infinity s' =>
          cases s <;> cases s'
          · exact hsame
          · exact hless bot_lt_top
          · exact hmore bot_lt_top
          · exact hsame
      | zero s' =>
          cases s
          · exact hless EReal.bot_lt_zero
          · exact hmore EReal.zero_lt_top
      | finite s' m' e' hm' =>
          cases s <;> cases s'
          · exact hless (EReal.bot_lt_coe _)
          · exact hless (EReal.bot_lt_coe _)
          · exact hmore (EReal.coe_lt_top _)
          · exact hmore (EReal.coe_lt_top _)
  | zero s =>
      cases v with
      | notANumber => cases hright
      | infinity s' =>
          cases s'
          · exact hmore EReal.bot_lt_zero
          · exact hless EReal.zero_lt_top
      | zero s' => exact hsame
      | finite s' m' e' hm' =>
          cases s'
          · exact hmore (value_negative e' hm')
          · exact hless (value_positive e' hm')
  | finite s m e hm =>
      cases v with
      | notANumber => cases hright
      | infinity s' =>
          cases s <;> cases s'
          · exact hmore (EReal.bot_lt_coe _)
          · exact hless (EReal.coe_lt_top _)
          · exact hmore (EReal.bot_lt_coe _)
          · exact hless (EReal.coe_lt_top _)
      | zero s' =>
          cases s
          · exact hless (value_negative e hm)
          · exact hmore (value_positive e hm)
      | finite s' m' e' hm' =>
          have hscaled := IsScaled.compare_then hu hv
          cases s <;> cases s'
          · have hturned : StrictAnti fun a : ℝ => -a := fun a b => neg_lt_neg
            rw [Float.Model.UnpackedFloat.compare, hscaled, cmp_swap, value, value,
              EReal.coe_strictMono.cmp_map_eq, hturned.cmp_map_eq]
          · exact hless ((value_negative e hm).trans (value_positive e' hm'))
          · exact hmore ((value_negative e' hm').trans (value_positive e hm))
          · rw [Float.Model.UnpackedFloat.compare, hscaled, value, value,
              EReal.coe_strictMono.cmp_map_eq]

end UnpackedFloat

namespace Float

/-- What a number of 64 bits stands for. -/
noncomputable def value (x : Float) : EReal := UnpackedFloat.value x.toModel.unpack

/-- Numbers compare as what they stand for, and whatever is no number compares with nothing. -/
theorem compare_eq (x y : Float) :
    x.toModel.unpack.compare y.toModel.unpack =
      if x.isNaN = false ∧ y.isNaN = false then some (cmp (value x) (value y)) else none := by
  split
  · rename_i hnumbers
    exact UnpackedFloat.compare_eq_cmp (UnpackedFloat.isCanonical_unpack _)
      (UnpackedFloat.isCanonical_unpack _) hnumbers.1 hnumbers.2
  · rename_i hnumbers
    rw [not_and_or, Bool.not_eq_false, Bool.not_eq_false] at hnumbers
    rcases hnumbers with hx | hy
    · rw [UnpackedFloat.eq_notANumber hx]
      rfl
    · rw [UnpackedFloat.eq_notANumber hy]
      cases x.toModel.unpack <;> rfl

/-- One word is less than another if both are numbers and the one stands for less. -/
theorem lt_iff (x y : Float) :
    x < y ↔ (x.isNaN = false ∧ y.isNaN = false) ∧ value x < value y := by
  have hcompare : x < y ↔ x.toModel.unpack.compare y.toModel.unpack = some .lt :=
    decide_eq_true_iff.trans beq_iff_eq
  rw [hcompare, compare_eq]
  split
  · rename_i hnumbers
    rw [Option.some.injEq, cmp_eq_lt_iff]
    exact (and_iff_right hnumbers).symm
  · rename_i hnumbers
    exact iff_of_false nofun fun hgiven => hnumbers hgiven.1

/-- So it is with no more. -/
theorem le_iff (x y : Float) :
    x ≤ y ↔ (x.isNaN = false ∧ y.isNaN = false) ∧ value x ≤ value y := by
  have hcompare : x ≤ y ↔ (x.toModel.unpack.compare y.toModel.unpack).any (·.isLE) = true :=
    decide_eq_true_iff
  rw [hcompare, compare_eq]
  split
  · rename_i hnumbers
    rw [Option.any_some, ← Ordering.ne_gt_iff_isLE, cmp_eq_gt_iff, not_lt]
    exact (and_iff_right hnumbers).symm
  · rename_i hnumbers
    exact iff_of_false nofun fun hgiven => hnumbers hgiven.1

end Float

end SeviriImagery
