import SeviriImagery.Proofs.Frame.Addressing
import SeviriImagery.Proofs.Image.Part
import SeviriImagery.Proofs.SpaceView.Footprint
import SeviriImagery.Proofs.Word.Whole

/-!
# The pixels of an area, with exact numbers

Wherever the edges of an area are seen, the pixels of the area are never a bad rectangle.  Here the
points are any pairs of real numbers, the infinite ones among them, and nothing is known of how they
came about.

If the image has pixels, and some point lies before each end of it and behind each beginning, the
rectangle lies in the image and is the least that holds all points, each one rounded and moved into
the image (`GeoArea.pixelsAround_least_inside`).  Otherwise there is none.

The rectangle comes from differences of pixel numbers that cannot be negative.  `Box.pixelsWithin`
makes it with differences that fail below zero, and it comes to the same.

Numbers of 64 bits are compared and rounded as what they stand for, and so the pixels that are found
with them are those of exact numbers (`SpaceView.pixelArea_eq_exact`), unless an image is so large
that its size cannot be such a number.  What is seen under no number at all goes to the first pixel, so
that the pixels lie in the image in any case (`SpaceView.isWithin_of_pixelArea`).
-/

namespace SeviriImagery

/-- The integer nearest to a number, a half going away from zero. -/
noncomputable def roundAway (r : ℝ) : ℤ := if r < 0 then -round (-r) else round r

/-- The pixel that a number is moved to: it is rounded, and then held between the first pixel and the
last one. -/
noncomputable def clampedPixel (v : EReal) (last : Nat) : Nat :=
  if v = ⊥ then 0 else if v = ⊤ then last else (min (max (roundAway v.toReal) 0) last).toNat

/-- Below zero it does not matter which way a half goes. -/
theorem clampedPixel_eq (v : EReal) (last : Nat) : clampedPixel v last = nearestUpTo last v := by
  unfold clampedPixel
  induction v with
  | bot => rw [if_pos rfl, nearestUpTo_bot]
  | top => rw [if_neg top_ne_bot, if_pos rfl, nearestUpTo_top]
  | coe r =>
      rw [if_neg (EReal.coe_ne_bot r), if_neg (EReal.coe_ne_top r), EReal.toReal_coe, roundAway]
      by_cases hr : r < 0
      · have hround : 0 ≤ round (-r) := by
          rw [round_eq]
          exact Int.floor_nonneg.mpr (by linarith)
        rw [if_pos hr, nearestUpTo_of_nonpos (EReal.coe_nonpos.mpr hr.le)]
        omega
      · rw [if_neg hr, nearestUpTo_coe]
        omega

/-- Numbers that are compared and rounded as they are. -/
noncomputable instance : Coordinate EReal where
  lesser := min
  greater := max
  reachesFirst v := decide (0 ≤ v)
  isBefore v n := decide (v < (n : EReal))
  nearest := clampedPixel

/-- No coordinate is moved beyond the last pixel. -/
theorem clampedPixel_le (v : EReal) (last : Nat) : clampedPixel v last ≤ last := by
  rw [clampedPixel_eq]
  exact nearestUpTo_le last v

/-- Coordinates are moved into the image in their order. -/
theorem clampedPixel_mono {v w : EReal} (hle : v ≤ w) (last : Nat) :
    clampedPixel v last ≤ clampedPixel w last := by
  rw [clampedPixel_eq, clampedPixel_eq]
  exact nearestUpTo_mono last hle

/-- What lies left of the image is moved to the first pixel. -/
theorem clampedPixel_of_neg {v : EReal} (hv : v < 0) (last : Nat) : clampedPixel v last = 0 := by
  rw [clampedPixel_eq]
  exact nearestUpTo_of_nonpos hv.le

/-- What lies beyond the image is moved to the last pixel. -/
theorem clampedPixel_of_ge {v : EReal} {size : Nat} (hv : (size : EReal) ≤ v) :
    clampedPixel v (size - 1) = size - 1 := by
  refine Nat.le_antisymm (clampedPixel_le v _) ?_
  have hend : nearestUpTo (size - 1) (((size : ℝ)) : EReal) = size - 1 := by
    rw [nearestUpTo_coe, round_natCast, Int.toNat_natCast]
    omega
  have hmono := nearestUpTo_mono (size - 1) hv
  rw [clampedPixel_eq]
  exact hend.symm.trans_le hmono

section Reach

variable {size k : Nat} {v : EReal}

/-- A bound reaches a pixel from the left if it is in front of the end and rounds to it or before.
-/
theorem reachesLeft_exact_iff :
    ReachesLeft size k v ↔ v < size ∧ clampedPixel v (size - 1) ≤ k :=
  and_congr_left' decide_eq_true_iff

/-- It reaches the pixel from the right if it is not in front of the first and rounds to it or
behind. -/
theorem reachesRight_exact_iff :
    ReachesRight size k v ↔ 0 ≤ v ∧ k ≤ clampedPixel v (size - 1) :=
  and_congr_left' decide_eq_true_iff

instance : LawfulCoordinate EReal where
  lesser_iff size k a b := by
    show ReachesLeft size k (min a b) ↔ _
    simp only [reachesLeft_exact_iff]
    rcases le_total a b with hle | hle
    · rw [min_eq_left hle]
      refine (or_iff_left_of_imp fun hb => ?_).symm
      exact ⟨hle.trans_lt hb.1, (clampedPixel_mono hle _).trans hb.2⟩
    · rw [min_eq_right hle]
      refine (or_iff_right_of_imp fun ha => ?_).symm
      exact ⟨hle.trans_lt ha.1, (clampedPixel_mono hle _).trans ha.2⟩
  greater_iff size k a b := by
    show ReachesRight size k (max a b) ↔ _
    simp only [reachesRight_exact_iff]
    rcases le_total a b with hle | hle
    · rw [max_eq_right hle]
      refine (or_iff_right_of_imp fun ha => ?_).symm
      exact ⟨ha.1.trans hle, ha.2.trans (clampedPixel_mono hle _)⟩
    · rw [max_eq_left hle]
      refine (or_iff_left_of_imp fun hb => ?_).symm
      exact ⟨hb.1.trans hle, hb.2.trans (clampedPixel_mono hle _)⟩
  nearest_eq_zero last a hfirst :=
    clampedPixel_of_neg (not_le.mp (of_decide_eq_false hfirst)) last

/-- If points begin before the end of an image and end behind its beginning, they reach to both
sides of the pixel of each of them. -/
theorem exists_reaches_of_mem {points : List (Option (EReal × EReal))}
    {coordinate : EReal × EReal → EReal}
    (hbefore : ∃ p, some p ∈ points ∧ coordinate p < size)
    (hfirst : ∃ p, some p ∈ points ∧ 0 ≤ coordinate p) {p : EReal × EReal}
    (hp : some p ∈ points) :
    (∃ q, some q ∈ points ∧
        ReachesLeft size (clampedPixel (coordinate p) (size - 1)) (coordinate q)) ∧
      ∃ q, some q ∈ points ∧
        ReachesRight size (clampedPixel (coordinate p) (size - 1)) (coordinate q) := by
  simp only [reachesLeft_exact_iff, reachesRight_exact_iff]
  constructor
  · by_cases hend : coordinate p < size
    · exact ⟨p, hp, hend, le_rfl⟩
    · -- the point lies beyond the image, where no pixel is further right
      obtain ⟨q, hq, hless⟩ := hbefore
      rw [clampedPixel_of_ge (not_lt.mp hend)]
      exact ⟨q, hq, hless, clampedPixel_le _ _⟩
  · by_cases hbegin : 0 ≤ coordinate p
    · exact ⟨p, hp, hbegin, le_rfl⟩
    · obtain ⟨q, hq, hmore⟩ := hfirst
      rw [clampedPixel_of_neg (not_le.mp hbegin)]
      exact ⟨q, hq, hmore, Nat.zero_le _⟩

end Reach

namespace Box

section Lawful

variable {K : Type} [Coordinate K] {points : List (Option (K × K))} {columns lines : Nat}
  {a : PixelArea}

/-- The pixels of a box, with differences that fail below zero. -/
def pixelsWithin (b : Box K) (columns lines : Nat) : Except ArithmeticFault PixelArea := do
  let lastColumn ← Checked.sub columns 1
  let lastLine ← Checked.sub lines 1
  let x := Coordinate.nearest b.left lastColumn
  let y := Coordinate.nearest b.top lastLine
  let width ← Checked.sub (Coordinate.nearest b.right lastColumn) x
  let height ← Checked.sub (Coordinate.nearest b.bottom lastLine) y
  return ⟨x, y, width + 1, height + 1⟩

/-- The area around points is that of their box, if the box touches the image. -/
theorem pixelsAround_eq_some_iff : pixelsAround points columns lines = some a ↔
    ∃ b, around points = some b ∧ b.touches columns lines = true ∧
      b.pixels columns lines = a := by
  unfold pixelsAround
  cases around points with
  | none => simp
  | some b => simp

/-- The first and the last pixel of a rectangle that is made of points. -/
theorem covers_corners (hpixels : pixelsAround points columns lines = some a) :
    a.Covers a.x a.y ∧ a.Covers (a.x + a.width - 1) (a.y + a.height - 1) := by
  obtain ⟨b, -, -, rfl⟩ := pixelsAround_eq_some_iff.mp hpixels
  simp only [pixels, PixelArea.Covers]
  omega

variable [LawfulCoordinate K]

/-- Of a box that touches an image with pixels, no difference is negative. -/
theorem pixelsWithin_eq_ok {b : Box K} (haround : around points = some b)
    (htouches : b.touches columns lines = true) (hcolumns : columns ≠ 0) (hlines : lines ≠ 0) :
    b.pixelsWithin columns lines = .ok (b.pixels columns lines) := by
  simp only [touches, Bool.and_eq_true] at htouches
  obtain ⟨⟨-, hleft⟩, htop⟩ := htouches
  have hwidth := across.nearest_low_le_high haround hleft
  have hheight := along.nearest_low_le_high haround htop
  simp only [across, along] at hwidth hheight
  rw [← Nat.one_le_iff_ne_zero] at hcolumns hlines
  simp only [pixelsWithin, Checked.sub, if_pos hcolumns, if_pos hlines, Outcome.ok_bind,
    if_pos hwidth, if_pos hheight]
  rfl

/-- A rectangle that is made of points has the pixels that have points on all sides. -/
theorem covers_iff_of_pixelsAround (hpixels : pixelsAround points columns lines = some a)
    (x y : Nat) : a.Covers x y ↔
      ((∃ p, some p ∈ points ∧ ReachesLeft columns x p.1) ∧
        ∃ p, some p ∈ points ∧ ReachesRight columns x p.1) ∧
      (∃ p, some p ∈ points ∧ ReachesLeft lines y p.2) ∧
        ∃ p, some p ∈ points ∧ ReachesRight lines y p.2 := by
  rw [← pixelsAround_covers_iff, hpixels]
  simp

end Lawful

section Exact

variable {points : List (Option (EReal × EReal))} {columns lines : Nat} {a : PixelArea}

/-- The pixel that a point is moved to. -/
noncomputable def position (columns lines : Nat) (p : EReal × EReal) : Nat × Nat :=
  (clampedPixel p.1 (columns - 1), clampedPixel p.2 (lines - 1))

/-- Whether points begin before the end of an image and end behind its beginning, in both
directions. -/
def Reach (points : List (Option (EReal × EReal))) (columns lines : Nat) : Prop :=
  ((∃ p, some p ∈ points ∧ p.1 < columns) ∧ ∃ p, some p ∈ points ∧ 0 ≤ p.1) ∧
    (∃ p, some p ∈ points ∧ p.2 < lines) ∧ ∃ p, some p ∈ points ∧ 0 ≤ p.2

/-- Points that reach the image make a rectangle that has the pixel of each of them. -/
theorem Reach.exists_covers (hreach : Reach points columns lines) {p : EReal × EReal}
    (hp : some p ∈ points) :
    ∃ a, pixelsAround points columns lines = some a ∧
      a.Covers (position columns lines p).1 (position columns lines p).2 := by
  obtain ⟨⟨hright, hleft⟩, hbottom, htop⟩ := hreach
  apply (pixelsAround_covers_iff points columns lines _ _).mpr
  exact ⟨exists_reaches_of_mem hright hleft hp, exists_reaches_of_mem hbottom htop hp⟩

/-- A rectangle is made of points just if they reach the image. -/
theorem exists_pixelsAround_iff :
    (∃ a, pixelsAround points columns lines = some a) ↔ Reach points columns lines := by
  constructor
  · rintro ⟨a, hpixels⟩
    obtain ⟨hcorner, -⟩ := covers_corners hpixels
    rw [covers_iff_of_pixelsAround hpixels] at hcorner
    simp only [reachesLeft_exact_iff, reachesRight_exact_iff] at hcorner
    obtain ⟨⟨⟨p₁, h₁, hright, -⟩, p₂, h₂, hleft, -⟩, ⟨p₃, h₃, hbottom, -⟩, p₄, h₄, htop, -⟩ := hcorner
    exact ⟨⟨⟨p₁, h₁, hright⟩, p₂, h₂, hleft⟩, ⟨p₃, h₃, hbottom⟩, p₄, h₄, htop⟩
  · intro hreach
    obtain ⟨⟨⟨p, hp, -⟩, -⟩, -⟩ := id hreach
    obtain ⟨a, hpixels, -⟩ := hreach.exists_covers hp
    exact ⟨a, hpixels⟩

/-- The area has the pixel of every point. -/
theorem covers_position (hpixels : pixelsAround points columns lines = some a)
    {p : EReal × EReal} (hp : some p ∈ points) :
    a.Covers (position columns lines p).1 (position columns lines p).2 := by
  obtain ⟨a', hsame, hcovers⟩ := (exists_pixelsAround_iff.mp ⟨a, hpixels⟩).exists_covers hp
  cases hpixels.symm.trans hsame
  exact hcovers

/-- The rectangle of points in an image with pixels lies in the image. -/
theorem isWithin_of_pixelsAround (hpixels : pixelsAround points columns lines = some a)
    (hcolumns : columns ≠ 0) (hlines : lines ≠ 0) : a.isWithin columns lines = true := by
  obtain ⟨hfirst, hlast⟩ := covers_corners hpixels
  rw [covers_iff_of_pixelsAround hpixels] at hlast
  simp only [reachesLeft_exact_iff, reachesRight_exact_iff] at hlast
  obtain ⟨⟨-, p, -, -, hx⟩, -, q, -, -, hy⟩ := hlast
  have hcolumn := clampedPixel_le p.1 (columns - 1)
  have hline := clampedPixel_le q.2 (lines - 1)
  simp only [PixelArea.Covers] at hfirst
  refine PixelArea.isWithin_iff.mpr ⟨by omega, by omega, ?_⟩
  simp only [PixelArea.IsInside]
  omega

/-- No rectangle that has the pixels of all points is smaller. -/
theorem covers_of_covers_positions (hpixels : pixelsAround points columns lines = some a)
    {c : PixelArea} (hall : ∀ p, some p ∈ points →
      c.Covers (position columns lines p).1 (position columns lines p).2) {x y : Nat}
    (hcovers : a.Covers x y) : c.Covers x y := by
  rw [covers_iff_of_pixelsAround hpixels] at hcovers
  simp only [reachesLeft_exact_iff, reachesRight_exact_iff] at hcovers
  obtain ⟨⟨⟨p₁, h₁, -, hleft⟩, p₂, h₂, -, hright⟩, ⟨p₃, h₃, -, htop⟩, p₄, h₄, -, hbottom⟩ := hcovers
  obtain ⟨⟨hx, -⟩, -⟩ := hall p₁ h₁
  obtain ⟨⟨-, hx'⟩, -⟩ := hall p₂ h₂
  obtain ⟨-, hy, -⟩ := hall p₃ h₃
  obtain ⟨-, -, hy'⟩ := hall p₄ h₄
  simp only [position] at hx hx' hy hy'
  simp only [PixelArea.Covers]
  omega

end Exact

end Box

/-- **The pixels of an area are never a bad rectangle.**  Whatever points are seen along its edges,
there are no pixels just if the image has none, if nothing is seen, or if all that is seen lies to
the left, above, to the right or below the image.

Otherwise no difference from which the rectangle comes is negative, it lies in the image, and it is
the least one that has the pixel of each point, as it is rounded and moved into the image. -/
theorem GeoArea.pixelsAround_least_inside (area : GeoArea) (points : List (Option (EReal × EReal)))
    (columns lines : Nat) :
    let seen (p : EReal × EReal) : Prop := some p ∈ points
    let holdsAll (c : PixelArea) : Prop :=
      ∀ p, seen p → c.Covers (clampedPixel p.1 (columns - 1)) (clampedPixel p.2 (lines - 1))
    ((∃ e, area.pixelsAround points columns lines = .error e) ↔
      (columns = 0 ∨ lines = 0) ∨ (¬∃ p, seen p) ∨
        (∀ p, seen p → p.1 < 0) ∨ (∀ p, seen p → p.2 < 0) ∨
        (∀ p, seen p → columns ≤ p.1) ∨ ∀ p, seen p → lines ≤ p.2) ∧
    ∀ a, area.pixelsAround points columns lines = .ok a →
      (∃ b, Box.around points = some b ∧ b.pixelsWithin columns lines = .ok a) ∧
      a.checkWithin columns lines = .ok () ∧ holdsAll a ∧
      ∀ c, holdsAll c → ∀ x y, a.Covers x y → c.Covers x y := by
  intro seen holdsAll
  constructor
  · have hok : (∃ a, area.pixelsAround points columns lines = .ok a) ↔
        (columns ≠ 0 ∧ lines ≠ 0) ∧ Box.Reach points columns lines := by
      simp only [area.pixelsAround_eq_ok_iff, exists_and_left, Box.exists_pixelsAround_iff]
    have herror : (∃ e, area.pixelsAround points columns lines = .error e) ↔
        ¬∃ a, area.pixelsAround points columns lines = .ok a := by
      cases area.pixelsAround points columns lines <;> simp
    have hnone (reaches : EReal × EReal → Prop) :
        (¬∃ p, some p ∈ points ∧ reaches p) ↔ ∀ p, seen p → ¬reaches p := by
      simp only [seen, not_exists, not_and]
    -- what holds of all points holds if there are none
    have hnothing : (¬∃ p, seen p) → ∀ p, seen p → p.1 < 0 := fun hempty p hp =>
      absurd ⟨p, hp⟩ hempty
    rw [herror, hok, Box.Reach]
    simp only [not_and_or, hnone, not_lt, not_le, ne_eq, not_not]
    tauto
  · intro a hpixels
    obtain ⟨⟨hcolumns, hlines⟩, hpixels⟩ := area.pixelsAround_eq_ok_iff.mp hpixels
    obtain ⟨b, haround, htouches, rfl⟩ := Box.pixelsAround_eq_some_iff.mp hpixels
    refine ⟨⟨b, haround, Box.pixelsWithin_eq_ok haround htouches hcolumns hlines⟩,
      PixelArea.checkWithin_eq_ok_iff.mpr (PixelArea.endsWithin_of_isWithin
        (Box.isWithin_of_pixelsAround hpixels hcolumns hlines)),
      fun p hp => Box.covers_position hpixels hp, fun c hall x y hcovers => ?_⟩
    exact Box.covers_of_covers_positions hpixels hall hcovers

/-- An area of one degree each way. -/
def oneDegree : GeoArea := ⟨⟨0, 1, 0, 1⟩, by decide⟩

/-- Two points span the whole of an image of four columns and three lines: one that lies to the left
of its first line, and one to its right, halfway between its second line and its third. -/
theorem pixels_of_twoPoints :
    let points : List (Option (EReal × EReal)) :=
      [some ((-3 : ℝ), (0 : ℝ)), none, some ((5 : ℝ), (3 / 2 : ℝ))]
    ∃ a, oneDegree.pixelsAround points 4 3 = .ok a ∧ a.checkWithin 4 3 = .ok () ∧
      a.Covers 0 0 ∧ a.Covers 3 2 := by
  intro points
  obtain ⟨hfails, hgiven⟩ := oneDegree.pixelsAround_least_inside points 4 3
  have hfirst : some (((-3 : ℝ) : EReal), ((0 : ℝ) : EReal)) ∈ points := by simp [points]
  have hsecond : some (((5 : ℝ) : EReal), ((3 / 2 : ℝ) : EReal)) ∈ points := by simp [points]
  cases hpixels : oneDegree.pixelsAround points 4 3 with
  | error e =>
      rcases hfails.mp ⟨e, hpixels⟩ with hempty | hnone | hleft | habove | hright | hbelow
      · omega
      · exact absurd ⟨_, hfirst⟩ hnone
      · exact absurd (EReal.coe_neg'.mp (hleft _ hsecond)) (by norm_num)
      · exact absurd (EReal.coe_neg'.mp (habove _ hsecond)) (by norm_num)
      · exact absurd (EReal.coe_le_coe_iff.mp (hright _ hfirst)) (by norm_num)
      · exact absurd (EReal.coe_le_coe_iff.mp (hbelow _ hfirst)) (by norm_num)
  | ok a =>
      obtain ⟨-, hwithin, hall, -⟩ := hgiven a hpixels
      have hcorner := hall _ hfirst
      have hopposite := hall _ hsecond
      have hleft : clampedPixel (-3 : ℝ) 3 = 0 :=
        clampedPixel_of_neg (EReal.coe_neg'.mpr (by norm_num)) 3
      have hright : clampedPixel (5 : ℝ) 3 = 3 :=
        @clampedPixel_of_ge _ 4 (EReal.coe_le_coe_iff.mpr (by norm_num))
      have htop : clampedPixel (0 : ℝ) 2 = 0 := by
        rw [clampedPixel_eq, nearestUpTo_coe, round_zero]
        rfl
      have hhalf : clampedPixel (3 / 2 : ℝ) 2 = 2 := by
        have hround : round (3 / 2 : ℝ) = 2 := by
          rw [round_eq]
          norm_num
        rw [clampedPixel_eq, nearestUpTo_coe, hround]
        rfl
      simp only [hleft, htop, hright, hhalf, Nat.reduceSub] at hcorner hopposite
      exact ⟨a, rfl, hwithin, hcorner, hopposite⟩

section Float

/-- A point of which both coordinates are numbers. -/
def IsNumberPair (p : Float × Float) : Prop := p.1.isNaN = false ∧ p.2.isNaN = false

/-- What the coordinates of a point stand for. -/
noncomputable def exactPoint (p : Float × Float) : EReal × EReal :=
  (Float.value p.1, Float.value p.2)

/-- A box of which all bounds are numbers. -/
structure Box.IsNumbers (b : Box Float) : Prop where
  left : b.left.isNaN = false
  right : b.right.isNaN = false
  top : b.top.isNaN = false
  bottom : b.bottom.isNaN = false

/-- What the bounds of a box stand for. -/
noncomputable def Box.exact (b : Box Float) : Box EReal :=
  ⟨Float.value b.left, Float.value b.right, Float.value b.top, Float.value b.bottom⟩

variable {x y : Float} {size columns lines : Nat} {b : Box Float}

/-- The lesser of two numbers of 64 bits is the lesser of what they stand for. -/
theorem lesserFloat_exact (hx : x.isNaN = false) (hy : y.isNaN = false) :
    (lesserFloat x y).isNaN = false ∧
      Float.value (lesserFloat x y) = min (Float.value x) (Float.value y) := by
  rw [lesserFloat, hx, if_neg Bool.false_ne_true]
  by_cases hless : y < x
  · rw [if_pos hless]
    exact ⟨hy, (min_eq_right ((Float.lt_iff y x).mp hless).2.le).symm⟩
  · rw [if_neg hless]
    exact ⟨hx, (min_eq_left (value_le_of_not_lt hx hy hless)).symm⟩

/-- So is the greater. -/
theorem greaterFloat_exact (hx : x.isNaN = false) (hy : y.isNaN = false) :
    (greaterFloat x y).isNaN = false ∧
      Float.value (greaterFloat x y) = max (Float.value x) (Float.value y) := by
  rw [greaterFloat, hx, if_neg Bool.false_ne_true]
  by_cases hless : x < y
  · rw [if_pos hless]
    exact ⟨hy, (max_eq_right ((Float.lt_iff x y).mp hless).2.le).symm⟩
  · rw [if_neg hless]
    exact ⟨hx, (max_eq_left (value_le_of_not_lt hy hx hless)).symm⟩

/-- Whether a number of 64 bits is in front of the image depends on what it stands for alone. -/
theorem reachesFirst_exact (hx : x.isNaN = false) :
    Coordinate.reachesFirst x = Coordinate.reachesFirst (Float.value x) := by
  have hzero : (0 : Float).isNaN = false := by decide
  have hvalue : Float.value 0 = 0 := rfl
  have hiff : (0 : Float) ≤ x ↔ 0 ≤ Float.value x := by
    rw [Float.le_iff, hvalue, and_iff_right ⟨hzero, hx⟩]
  exact decide_eq_decide.mpr hiff

/-- So does whether it is behind it, while 64 bits hold the size exactly. -/
theorem isBefore_exact (hx : x.isNaN = false) (hsize : size < 2 ^ 53) :
    Coordinate.isBefore x size = Coordinate.isBefore (Float.value x) size := by
  have hiff : x < Float.ofNat size ↔ Float.value x < size := by
    rw [Float.lt_iff, Float.value_ofNat hsize, and_iff_right ⟨hx, Float.isNaN_ofNat hsize⟩]
  exact decide_eq_decide.mpr hiff

/-- It is rounded to the pixel to which the number it stands for is rounded. -/
theorem nearest_exact (x : Float) (hsize : size < 2 ^ 53) :
    Coordinate.nearest x (size - 1) = Coordinate.nearest (Float.value x) (size - 1) := by
  show nearestFloat x (size - 1) = clampedPixel (Float.value x) (size - 1)
  rw [nearestFloat_eq, Float.toNat_toUInt64_ofNat (by omega), clampedPixel_eq]

namespace Box

/-- A point more extends what a box stands for. -/
theorem extend_exact (hb : b.IsNumbers) {p : Float × Float} (hp : IsNumberPair p) :
    (b.extend p).IsNumbers ∧ (b.extend p).exact = b.exact.extend (exactPoint p) := by
  obtain ⟨hleft, hleft'⟩ := lesserFloat_exact hb.left hp.1
  obtain ⟨hright, hright'⟩ := greaterFloat_exact hb.right hp.1
  obtain ⟨htop, htop'⟩ := lesserFloat_exact hb.top hp.2
  obtain ⟨hbottom, hbottom'⟩ := greaterFloat_exact hb.bottom hp.2
  refine ⟨⟨hleft, hright, htop, hbottom⟩, ?_⟩
  show Box.mk _ _ _ _ = Box.mk _ _ _ _
  congr 1

/-- One point more: the box that covers it stands for the one that covers what it stands for. -/
theorem cover_exact {start : Option (Box Float)} {point : Option (Float × Float)}
    (hstart : ∀ b, start = some b → b.IsNumbers)
    (hpoint : ∀ p, point = some p → IsNumberPair p) :
    cover (start.map exact) (point.map exactPoint) = (cover start point).map exact ∧
      ∀ b, cover start point = some b → b.IsNumbers := by
  cases point with
  | none => cases start <;> exact ⟨rfl, hstart⟩
  | some p =>
      have hp := hpoint p rfl
      cases start with
      | none =>
          refine ⟨rfl, fun b hb => ?_⟩
          cases hb
          exact ⟨hp.1, hp.1, hp.2, hp.2⟩
      | some b =>
          obtain ⟨hnumbers, hsame⟩ := extend_exact (hstart b rfl) hp
          refine ⟨congrArg some hsame.symm, fun b' hb' => ?_⟩
          cases hb'
          exact hnumbers

/-- The box around some points stands for the box around what they stand for. -/
theorem around_exact {points : List (Option (Float × Float))}
    (hpoints : ∀ p, some p ∈ points → IsNumberPair p) :
    around (points.map (Option.map exactPoint)) = (around points).map exact ∧
      ∀ b, around points = some b → b.IsNumbers := by
  -- Over the points, from any box of numbers that was there before them.
  have hfold (start : Option (Box Float)) (hstart : ∀ b, start = some b → b.IsNumbers) :
      (points.map (Option.map exactPoint)).foldl cover (start.map exact) =
          (points.foldl cover start).map exact ∧
        ∀ b, points.foldl cover start = some b → b.IsNumbers := by
    induction points generalizing start with
    | nil => exact ⟨rfl, hstart⟩
    | cons point rest ih =>
        have hpoint : ∀ p, point = some p → IsNumberPair p := fun p hp =>
          hpoints p (hp ▸ List.mem_cons_self)
        obtain ⟨hstep, hnext⟩ := cover_exact hstart hpoint
        rw [List.map_cons, List.foldl_cons, List.foldl_cons, hstep]
        exact ih (fun p hp => hpoints p (List.mem_cons_of_mem point hp)) _ hnext
  exact hfold none nofun

/-- A box and what it stands for touch the same images, and have the same pixels of them. -/
theorem touches_exact (hb : b.IsNumbers) (hcolumns : columns < 2 ^ 53) (hlines : lines < 2 ^ 53) :
    b.exact.touches columns lines = b.touches columns lines := by
  rw [touches, touches, reachesFirst_exact hb.right, reachesFirst_exact hb.bottom,
    isBefore_exact hb.left hcolumns, isBefore_exact hb.top hlines]
  rfl

/-- The pixels of a box are those of the box it stands for. -/
theorem pixels_exact (b : Box Float) (hcolumns : columns < 2 ^ 53) (hlines : lines < 2 ^ 53) :
    b.exact.pixels columns lines = b.pixels columns lines := by
  rw [pixels, pixels, nearest_exact b.left hcolumns, nearest_exact b.right hcolumns,
    nearest_exact b.top hlines, nearest_exact b.bottom hlines]
  rfl

/-- Around points of 64 bits there are the same pixels as around the exact ones. -/
theorem pixelsAround_exact_eq {points : List (Option (Float × Float))}
    (hpoints : ∀ p, some p ∈ points → IsNumberPair p) (hcolumns : columns < 2 ^ 53)
    (hlines : lines < 2 ^ 53) :
    pixelsAround (points.map (Option.map exactPoint)) columns lines =
      pixelsAround points columns lines := by
  obtain ⟨hsame, hnumbers⟩ := around_exact hpoints
  unfold pixelsAround
  rw [hsame]
  cases haround : around points with
  | none => rfl
  | some b =>
      simp only [Option.map_some, touches_exact (hnumbers b haround) hcolumns hlines,
        pixels_exact b hcolumns hlines]

end Box

/-- **The pixels of an area are those of exact numbers.**  If the edges of an area are seen under
numbers only, in an image of less than `2 ^ 53` columns and lines, computing with numbers of 64 bits
finds the pixels that computing with what these stand for does. -/
theorem SpaceView.pixelArea_eq_exact {view : SpaceView} {area : GeoArea}
    (hnumbers : ∀ p, some p ∈ view.edgeViews area → IsNumberPair p) (hcolumns : columns < 2 ^ 53)
    (hlines : lines < 2 ^ 53) :
    view.pixelArea area columns lines =
      area.pixelsAround ((view.edgeViews area).map (Option.map exactPoint)) columns lines := by
  show area.pixelsAround (view.edgeViews area) columns lines = _
  rw [GeoArea.pixelsAround, GeoArea.pixelsAround, Box.pixelsAround_exact_eq hnumbers hcolumns hlines]

end Float

end SeviriImagery
