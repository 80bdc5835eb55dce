import SeviriImagery.Proofs.Outcome
import SeviriImagery.Proofs.Word.Order
import SeviriImagery.SpaceView.Footprint

/-!
# Which pixels an area covers

The box around some points reaches as far to each side as one of the points does, and no further.
So a pixel lies in the rectangle that is made of it if there is a visible point not right of the
pixel, one not left of it, one not below and one not above (`Box.pixelsAround_covers_iff`), where
points left of the first pixel or beyond the last count as far as the image goes.

This takes three facts about the numbers, which `LawfulCoordinate` collects; numbers of 64 bits have
them, as rounding keeps their order (`nearestFloat_mono`).

The points are those along the edges of an area, so nothing else of the area decides what is covered
(`SpaceView.pixelArea_covers_iff`).  A place in its middle may well be seen and not be covered, and
an area whose edges are all out of sight covers nothing.
-/

namespace SeviriImagery

/-- Whether an area has a pixel. -/
def PixelArea.Covers (a : PixelArea) (x y : Nat) : Prop :=
  (a.x ≤ x ∧ x < a.x + a.width) ∧ a.y ≤ y ∧ y < a.y + a.height

section Coordinate

variable {K : Type} [Coordinate K]

/-- Left of the end of an image, and not right of pixel `k`. -/
def ReachesLeft (size k : Nat) (v : K) : Prop :=
  Coordinate.isBefore v size = true ∧ Coordinate.nearest v (size - 1) ≤ k

/-- Not left of an image, and not left of pixel `k`. -/
def ReachesRight (size k : Nat) (v : K) : Prop :=
  Coordinate.reachesFirst v = true ∧ k ≤ Coordinate.nearest v (size - 1)

end Coordinate

/-- What holds of numbers that are in order: the lesser of two is as far left as either, the greater
as far right, and whatever is left of the first pixel is nearest to it. -/
class LawfulCoordinate (K : Type) [Coordinate K] : Prop where
  lesser_iff (size k : Nat) (a b : K) :
    ReachesLeft size k (Coordinate.lesser a b) ↔ ReachesLeft size k a ∨ ReachesLeft size k b
  greater_iff (size k : Nat) (a b : K) :
    ReachesRight size k (Coordinate.greater a b) ↔ ReachesRight size k a ∨ ReachesRight size k b
  nearest_eq_zero (last : Nat) (a : K) :
    Coordinate.reachesFirst a = false → Coordinate.nearest a last = 0

namespace Box

variable {K : Type} [Coordinate K]

/-- One of the two directions of a box. -/
structure Axis (K : Type) [Coordinate K] where
  low : Box K → K
  high : Box K → K
  coordinate : K × K → K
  low_point : ∀ p, low (point p) = coordinate p
  high_point : ∀ p, high (point p) = coordinate p
  low_extend : ∀ b p, low (b.extend p) = Coordinate.lesser (low b) (coordinate p)
  high_extend : ∀ b p, high (b.extend p) = Coordinate.greater (high b) (coordinate p)

/-- From left to right. -/
def across : Axis K := ⟨left, right, Prod.fst, fun _ => rfl, fun _ => rfl, fun _ _ => rfl,
  fun _ _ => rfl⟩

/-- From top to bottom. -/
def along : Axis K := ⟨top, bottom, Prod.snd, fun _ => rfl, fun _ => rfl, fun _ _ => rfl,
  fun _ _ => rfl⟩

/-- What a box has as soon as one point of it has it, the box around some points has if one of the
visible ones has it. -/
theorem around_iff {side : Box K → Prop} {reach : K × K → Prop}
    (hpoint : ∀ p, side (point p) ↔ reach p)
    (hextend : ∀ b p, side (b.extend p) ↔ side b ∨ reach p) (points : List (Option (K × K))) :
    (∃ b, around points = some b ∧ side b) ↔ ∃ p, some p ∈ points ∧ reach p := by
  -- Over the points, from any box that was there before them.
  have hfold (start : Option (Box K)) : (∃ b, points.foldl cover start = some b ∧ side b) ↔
      (∃ b, start = some b ∧ side b) ∨ ∃ p, some p ∈ points ∧ reach p := by
    induction points generalizing start with
    | nil => simp
    | cons point rest ih =>
        rw [List.foldl_cons, ih]
        cases point with
        | none => cases start <;> simp [cover]
        | some p => cases start <;> simp [cover, hpoint, hextend, or_assoc, exists_or, or_and_right]
  have hempty : ¬∃ b : Box K, none = some b ∧ side b := by simp
  rw [around, hfold, or_iff_right hempty]

namespace Axis

variable [LawfulCoordinate K] (axis : Axis K) {points : List (Option (K × K))} {size k : Nat}
  {b : Box K}

/-- A box reaches to the left as far as one of the points does. -/
theorem low_iff :
    (∃ b, around points = some b ∧ ReachesLeft size k (axis.low b)) ↔
      ∃ p, some p ∈ points ∧ ReachesLeft size k (axis.coordinate p) := by
  refine around_iff (fun p => by rw [axis.low_point]) (fun b p => ?_) points
  rw [axis.low_extend, LawfulCoordinate.lesser_iff]

/-- A box reaches to the right as far as one of the points does. -/
theorem high_iff :
    (∃ b, around points = some b ∧ ReachesRight size k (axis.high b)) ↔
      ∃ p, some p ∈ points ∧ ReachesRight size k (axis.coordinate p) := by
  refine around_iff (fun p => by rw [axis.high_point]) (fun b p => ?_) points
  rw [axis.high_extend, LawfulCoordinate.greater_iff]

/-- The sides of a box that touches the image are in order. -/
theorem nearest_low_le_high (haround : around points = some b)
    (hlow : Coordinate.isBefore (axis.low b) size = true) :
    Coordinate.nearest (axis.low b) (size - 1) ≤ Coordinate.nearest (axis.high b) (size - 1) := by
  obtain ⟨p, hp, hbefore, -⟩ := axis.low_iff.mp ⟨b, haround, hlow, Nat.le_refl _⟩
  obtain ⟨b', hsame, -, hleft⟩ := axis.low_iff.mpr ⟨p, hp, hbefore, Nat.le_refl _⟩
  cases haround.symm.trans hsame
  by_cases hfirst : Coordinate.reachesFirst (axis.coordinate p) = true
  · obtain ⟨b', hsame, -, hright⟩ := axis.high_iff.mpr ⟨p, hp, hfirst, Nat.le_refl _⟩
    cases haround.symm.trans hsame
    exact hleft.trans hright
  · -- The point lies left of the image, and so the box begins with the first pixel.
    rw [LawfulCoordinate.nearest_eq_zero _ _ (Bool.eq_false_of_not_eq_true hfirst)] at hleft
    omega

end Axis

variable [LawfulCoordinate K] {points : List (Option (K × K))} {b : Box K} {columns lines : Nat}

/-- A box that touches an image covers a pixel if it reaches as far to each side. -/
theorem touches_and_covers_iff (haround : around points = some b) (x y : Nat) :
    b.touches columns lines = true ∧ (b.pixels columns lines).Covers x y ↔
      (ReachesLeft columns x b.left ∧ ReachesRight columns x b.right) ∧
        ReachesLeft lines y b.top ∧ ReachesRight lines y b.bottom := by
  have hcolumns : Coordinate.isBefore b.left columns = true → _ :=
    across.nearest_low_le_high haround
  have hlines : Coordinate.isBefore b.top lines = true → _ := along.nearest_low_le_high haround
  simp only [touches, pixels, PixelArea.Covers, ReachesLeft, ReachesRight, Bool.and_eq_true]
  constructor
  · rintro ⟨⟨⟨⟨hright, hbottom⟩, hleft⟩, htop⟩, ⟨hx, hx'⟩, hy, hy'⟩
    have hwidth := hcolumns hleft
    have hheight := hlines htop
    simp only [across, along] at hwidth hheight
    exact ⟨⟨⟨hleft, hx⟩, hright, by omega⟩, ⟨htop, hy⟩, hbottom, by omega⟩
  · rintro ⟨⟨⟨hleft, hx⟩, hright, hx'⟩, ⟨htop, hy⟩, hbottom, hy'⟩
    exact ⟨⟨⟨⟨hright, hbottom⟩, hleft⟩, htop⟩, ⟨hx, by omega⟩, hy, by omega⟩

/-- **A pixel is covered if there are visible points on both sides of it in both directions.** -/
theorem pixelsAround_covers_iff (points : List (Option (K × K))) (columns lines x y : Nat) :
    (∃ a, pixelsAround points columns lines = some a ∧ a.Covers x y) ↔
      ((∃ p, some p ∈ points ∧ ReachesLeft columns x p.1) ∧
        ∃ p, some p ∈ points ∧ ReachesRight columns x p.1) ∧
      (∃ p, some p ∈ points ∧ ReachesLeft lines y p.2) ∧
        ∃ p, some p ∈ points ∧ ReachesRight lines y p.2 := by
  constructor
  · rintro ⟨a, hpixels, hcovers⟩
    unfold pixelsAround at hpixels
    split at hpixels
    · rename_i b haround
      split at hpixels
      · rename_i htouches
        cases hpixels
        obtain ⟨⟨hleft, hright⟩, htop, hbottom⟩ :=
          (touches_and_covers_iff haround x y).mp ⟨htouches, hcovers⟩
        exact ⟨⟨across.low_iff.mp ⟨b, haround, hleft⟩, across.high_iff.mp ⟨b, haround, hright⟩⟩,
          along.low_iff.mp ⟨b, haround, htop⟩, along.high_iff.mp ⟨b, haround, hbottom⟩⟩
      · cases hpixels
    · cases hpixels
  · rintro ⟨⟨hleft, hright⟩, htop, hbottom⟩
    obtain ⟨b, haround, hleft⟩ := across.low_iff.mpr hleft
    obtain ⟨b', hsame, hright⟩ := across.high_iff.mpr hright
    cases haround.symm.trans hsame
    obtain ⟨b', hsame, htop⟩ := along.low_iff.mpr htop
    cases haround.symm.trans hsame
    obtain ⟨b', hsame, hbottom⟩ := along.high_iff.mpr hbottom
    cases haround.symm.trans hsame
    obtain ⟨htouches, hcovers⟩ :=
      (touches_and_covers_iff haround x y).mpr ⟨⟨hleft, hright⟩, htop, hbottom⟩
    refine ⟨b.pixels columns lines, ?_, hcovers⟩
    rw [pixelsAround, haround]
    exact if_pos htouches

end Box

/-- An image that is not empty has the pixels that the points span. -/
theorem GeoArea.pixelsAround_eq_ok_iff {K : Type} [Coordinate K] {points : List (Option (K × K))}
    {columns lines : Nat} (area : GeoArea) {a : PixelArea} :
    area.pixelsAround points columns lines = .ok a ↔
      (columns ≠ 0 ∧ lines ≠ 0) ∧ Box.pixelsAround points columns lines = some a := by
  unfold pixelsAround
  by_cases hempty : columns = 0 ∨ lines = 0
  · rw [if_pos hempty]
    exact iff_of_false nofun fun hgiven => hempty.elim hgiven.1.1 hgiven.1.2
  · rw [if_neg hempty, and_iff_right (not_or.mp hempty)]
    cases Box.pixelsAround points columns lines <;> simp

namespace Decimal.Ratio

/-- A fraction is rounded to the integer nearest to it. -/
theorem nearest_eq {a : Ratio} (hpositive : 0 < a.denominator) :
    a.nearest = (round (a.numerator / a.denominator : ℝ)).toNat := by
  have hden : (a.denominator : ℝ) ≠ 0 := by positivity
  have hhalf : (a.numerator / a.denominator + 1 / 2 : ℝ) =
      ((2 * a.numerator + a.denominator : ℕ) : ℝ) / ((2 * a.denominator : ℕ) : ℝ) := by
    push_cast
    field_simp
  rw [nearest, round_eq, Int.floor_toNat, hhalf, Nat.floor_div_eq_div]

/-- A scaled number, rounded. -/
theorem nearest_scaled (m : Nat) (e : Int) :
    (scaled m 2 e).nearest = (round (m * 2 ^ e : ℝ)).toNat := by
  unfold scaled
  split
  · rename_i hexponent
    obtain ⟨n, rfl⟩ := Int.eq_ofNat_of_zero_le hexponent
    rw [nearest_eq Nat.one_pos]
    simp
  · rename_i hexponent
    obtain ⟨n, rfl⟩ : ∃ n : Nat, e = -n := ⟨(-e).toNat, by omega⟩
    rw [nearest_eq (by simp)]
    simp [div_eq_mul_inv]

end Decimal.Ratio

/-- The nearest integer from 0 up to a limit. -/
noncomputable def nearestUpTo (limit : Nat) (v : EReal) : Nat :=
  if v = ⊤ then limit else min (round v.toReal).toNat limit

theorem nearestUpTo_top (limit : Nat) : nearestUpTo limit ⊤ = limit := if_pos rfl

/-- A real number is rounded, and then moved between nought and the limit. -/
theorem nearestUpTo_coe (limit : Nat) (r : ℝ) : nearestUpTo limit r = min (round r).toNat limit :=
  if_neg (EReal.coe_ne_top r)

theorem nearestUpTo_bot (limit : Nat) : nearestUpTo limit ⊥ = 0 := by
  rw [nearestUpTo, if_neg bot_ne_top, EReal.toReal_bot, round_zero, Int.toNat_zero, Nat.zero_min]

/-- No number is rounded beyond the limit. -/
theorem nearestUpTo_le (limit : Nat) (v : EReal) : nearestUpTo limit v ≤ limit := by
  unfold nearestUpTo
  split
  · exact le_rfl
  · exact Nat.min_le_right _ _

/-- Numbers are rounded in their order. -/
theorem nearestUpTo_mono (limit : Nat) : Monotone (nearestUpTo limit) := by
  intro v w hle
  induction v with
  | bot =>
      rw [nearestUpTo_bot]
      exact Nat.zero_le _
  | top => rw [top_le_iff.mp hle]
  | coe r =>
      induction w with
      | bot => exact absurd hle (EReal.bot_lt_coe r).not_ge
      | top =>
          rw [nearestUpTo_top]
          exact nearestUpTo_le limit r
      | coe r' =>
          rw [nearestUpTo_coe, nearestUpTo_coe]
          have hround : round r ≤ round r' := by
            rw [round_eq, round_eq]
            gcongr
            exact EReal.coe_le_coe_iff.mp hle
          exact min_le_min_right limit (Int.toNat_le_toNat hround)

/-- What is not above zero goes to the first pixel. -/
theorem nearestUpTo_of_nonpos {limit : Nat} {v : EReal} (hv : v ≤ 0) : nearestUpTo limit v = 0 := by
  have hzero : nearestUpTo limit 0 = 0 := by
    rw [← EReal.coe_zero, nearestUpTo_coe, round_zero, Int.toNat_zero, Nat.zero_min]
  exact Nat.eq_zero_of_le_zero (hzero ▸ nearestUpTo_mono limit hv)

/-- Numbers of 64 bits are rounded as what they stand for. -/
theorem nearestFloat_eq (x : Float) (last : Nat) :
    nearestFloat x last = nearestUpTo (Float.ofNat last).toUInt64.toNat (Float.value x) := by
  unfold nearestFloat Float.value
  cases x.toModel.unpack with
  | notANumber => exact (nearestUpTo_of_nonpos le_rfl).symm
  | zero sign => exact (nearestUpTo_of_nonpos le_rfl).symm
  | infinity sign =>
      cases sign with
      | negative => exact (nearestUpTo_bot _).symm
      | positive => exact (nearestUpTo_top _).symm
  | finite sign mantissa exponent hpositive =>
      cases sign with
      | negative => exact (nearestUpTo_of_nonpos (UnpackedFloat.value_negative _ hpositive).le).symm
      | positive =>
          rw [UnpackedFloat.value, nearestUpTo_coe]
          exact congrArg (min · _) (Decimal.Ratio.nearest_scaled mantissa exponent)

/-- Rounding keeps the order. -/
theorem nearestFloat_mono {x y : Float} (hle : Float.value x ≤ Float.value y) (last : Nat) :
    nearestFloat x last ≤ nearestFloat y last := by
  rw [nearestFloat_eq, nearestFloat_eq]
  exact nearestUpTo_mono _ hle

section Float

variable {a b : Float} {size k : Nat}

/-- A bound of 64 bits reaches a pixel from the left if it compares and rounds so. -/
theorem reachesLeft_iff : ReachesLeft size k a ↔
    a < Float.ofNat size ∧ nearestFloat a (size - 1) ≤ k :=
  and_congr_left' decide_eq_true_iff

/-- So it is from the right. -/
theorem reachesRight_iff : ReachesRight size k a ↔ 0 ≤ a ∧ k ≤ nearestFloat a (size - 1) :=
  and_congr_left' decide_eq_true_iff

/-- What reaches a pixel is a number. -/
theorem isNaN_of_reachesLeft (hreaches : ReachesLeft size k a) : a.isNaN = false :=
  ((Float.lt_iff _ _).mp (reachesLeft_iff.mp hreaches).1).1.1

theorem isNaN_of_reachesRight (hreaches : ReachesRight size k a) : a.isNaN = false :=
  ((Float.le_iff _ _).mp (reachesRight_iff.mp hreaches).1).1.2

/-- What is further left reaches as far to the left. -/
theorem ReachesLeft.of_le (hb : ReachesLeft size k b) (ha : a.isNaN = false)
    (hle : Float.value a ≤ Float.value b) : ReachesLeft size k a := by
  rw [reachesLeft_iff, Float.lt_iff] at hb ⊢
  obtain ⟨⟨⟨-, hsize⟩, hless⟩, hnearest⟩ := hb
  exact ⟨⟨⟨ha, hsize⟩, hle.trans_lt hless⟩, (nearestFloat_mono hle _).trans hnearest⟩

/-- What is further right reaches as far to the right. -/
theorem ReachesRight.of_le (ha : ReachesRight size k a) (hb : b.isNaN = false)
    (hle : Float.value a ≤ Float.value b) : ReachesRight size k b := by
  rw [reachesRight_iff, Float.le_iff] at ha ⊢
  obtain ⟨⟨⟨hzero, -⟩, hmore⟩, hnearest⟩ := ha
  exact ⟨⟨⟨hzero, hb⟩, hmore.trans hle⟩, hnearest.trans (nearestFloat_mono hle _)⟩

/-- Two numbers of which the one is not below the other are in order. -/
theorem value_le_of_not_lt (ha : a.isNaN = false) (hb : b.isNaN = false) (hnot : ¬b < a) :
    Float.value a ≤ Float.value b :=
  not_lt.mp fun hless => hnot ((Float.lt_iff b a).mpr ⟨⟨hb, ha⟩, hless⟩)

/-- What is chosen of two, one that is no number giving way, has what either of them has, if only
numbers have it and the choice goes to the one that has it if the other does. -/
theorem chosen_iff {P : Float → Prop} {c : Prop} [Decidable c]
    (hnumber : ∀ x, P x → x.isNaN = false) (hsecond : c → P a → P b)
    (hfirst : a.isNaN = false → ¬c → P b → P a) :
    P (if a.isNaN then b else if c then b else a) ↔ P a ∨ P b := by
  split
  · rename_i hnan
    refine (or_iff_right fun ha => ?_).symm
    rw [hnumber a ha] at hnan
    cases hnan
  · rename_i hnan
    split
    · rename_i hc
      exact (or_iff_right_of_imp (hsecond hc)).symm
    · rename_i hc
      exact (or_iff_left_of_imp (hfirst (Bool.eq_false_of_not_eq_true hnan) hc)).symm

instance : LawfulCoordinate Float where
  lesser_iff size k a b := by
    refine chosen_iff (fun _ => isNaN_of_reachesLeft) (fun hless ha => ?_) fun ha hnot hb => ?_
    · obtain ⟨⟨hb, -⟩, hvalue⟩ := (Float.lt_iff b a).mp hless
      exact ha.of_le hb hvalue.le
    · exact hb.of_le ha (value_le_of_not_lt ha (isNaN_of_reachesLeft hb) hnot)
  greater_iff size k a b := by
    refine chosen_iff (fun _ => isNaN_of_reachesRight) (fun hless ha => ?_) fun ha hnot hb => ?_
    · obtain ⟨⟨-, hb⟩, hvalue⟩ := (Float.lt_iff a b).mp hless
      exact ha.of_le hb hvalue.le
    · exact hb.of_le ha (value_le_of_not_lt (isNaN_of_reachesRight hb) ha hnot)
  nearest_eq_zero last a hfirst := by
    show nearestFloat a last = 0
    rw [nearestFloat_eq]
    refine nearestUpTo_of_nonpos ?_
    have hnot : ¬(0 : Float) ≤ a := of_decide_eq_false hfirst
    rw [Float.le_iff] at hnot
    by_cases hnan : a.isNaN = true
    · rw [Float.value, UnpackedFloat.eq_notANumber hnan]
      rfl
    · have hnumber : a.isNaN = false := Bool.eq_false_of_not_eq_true hnan
      have hzero : (0 : Float).isNaN = false := by decide
      have hvalue : Float.value 0 = 0 := rfl
      rw [hvalue] at hnot
      exact (not_le.mp fun hmore => hnot ⟨⟨hzero, hnumber⟩, hmore⟩).le

end Float

namespace SpaceView

variable {view : SpaceView} {area : GeoArea} {columns lines : Nat}

/-- The columns and lines under which the edges of an area are seen. -/
def edgeViews (view : SpaceView) (area : GeoArea) : List (Option (Float × Float)) :=
  area.edgePoints.map fun place => view.pixel place.1 place.2

/-- An area of an image that is not empty has the pixels that its edges span. -/
theorem pixelArea_eq_ok_iff {a : PixelArea} : view.pixelArea area columns lines = .ok a ↔
    (columns ≠ 0 ∧ lines ≠ 0) ∧
      Box.pixelsAround (view.edgeViews area) columns lines = some a :=
  area.pixelsAround_eq_ok_iff

/-- **A pixel is covered if the edges of the area are seen on both sides of it in both directions.**
Edges beyond an image count as far as its first and its last pixel. -/
theorem pixelArea_covers_iff (view : SpaceView) (area : GeoArea) (columns lines x y : Nat) :
    let seen (reaches : Float × Float → Prop) : Prop :=
      ∃ place ∈ area.edgePoints, ∃ p, view.pixel place.1 place.2 = some p ∧ reaches p
    (∃ a, view.pixelArea area columns lines = .ok a ∧ a.Covers x y) ↔
      (columns ≠ 0 ∧ lines ≠ 0) ∧
      (seen (fun p => p.1 < Float.ofNat columns ∧ nearestFloat p.1 (columns - 1) ≤ x) ∧
        seen (fun p => 0 ≤ p.1 ∧ x ≤ nearestFloat p.1 (columns - 1))) ∧
      seen (fun p => p.2 < Float.ofNat lines ∧ nearestFloat p.2 (lines - 1) ≤ y) ∧
        seen (fun p => 0 ≤ p.2 ∧ y ≤ nearestFloat p.2 (lines - 1)) := by
  intro seen
  have hseen (reaches : Float × Float → Prop) :
      (∃ p, some p ∈ view.edgeViews area ∧ reaches p) ↔ seen reaches := by
    simp only [seen, edgeViews, List.mem_map]
    constructor
    · rintro ⟨p, ⟨place, hplace, hview⟩, hreaches⟩
      exact ⟨place, hplace, p, hview, hreaches⟩
    · rintro ⟨place, hplace, p, hview, hreaches⟩
      exact ⟨p, ⟨place, hplace, hview⟩, hreaches⟩
  have hcovers := Box.pixelsAround_covers_iff (view.edgeViews area) columns lines x y
  simp only [reachesLeft_iff, reachesRight_iff, hseen] at hcovers
  simp only [pixelArea_eq_ok_iff, and_assoc, exists_and_left] at hcovers ⊢
  rw [hcovers]

end SpaceView

end SeviriImagery
