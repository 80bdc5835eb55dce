import Mathlib
import SeviriImagery.Area.Request

/-!
# Where areas end

An area that fits ends where its corner and its size put it, and has all its columns and lines
(`PixelArea.right_eq`, `PixelArea.spanColumns_eq`).  So it ends inside an image exactly if it lies
inside (`PixelArea.endsWithin_iff_isWithin`).  An area that lies inside an image of sizes fits
(`PixelArea.fits_of_isWithin`); one that only ends inside need not, and then it has no pixel
(`PixelArea.spanColumns_mul_spanLines`).
-/

namespace SeviriImagery.PixelArea

/-- Whether an area, be it empty or not, goes nowhere beyond an image. -/
def IsInside (a : PixelArea) (columns lines : Nat) : Prop :=
  a.x + a.width ≤ columns ∧ a.y + a.height ≤ lines

variable {a : PixelArea} {columns lines : Nat}

/-- An area lies within an image if it has a pixel and goes nowhere beyond the image. -/
theorem isWithin_iff :
    a.isWithin columns lines = true ↔ 0 < a.width ∧ 0 < a.height ∧ a.IsInside columns lines := by
  simp only [isWithin, IsInside, Bool.and_eq_true, bne_iff_ne, decide_eq_true_eq,
    Nat.pos_iff_ne_zero, and_assoc]

/-- It ends there if it has a pixel and the column and the line behind it are no further than the
end. -/
theorem endsWithin_iff :
    a.endsWithin columns lines = true ↔
      0 < a.width ∧ 0 < a.height ∧ a.right ≤ columns ∧ a.bottom ≤ lines := by
  simp only [endsWithin, Bool.and_eq_true, bne_iff_ne, decide_eq_true_eq, Nat.pos_iff_ne_zero,
    and_assoc]

/-- An area that fits ends where the numbers say. -/
theorem right_eq (hfits : a.Fits) : a.right = a.x + a.width := Size.add_of_lt hfits.1

theorem bottom_eq (hfits : a.Fits) : a.bottom = a.y + a.height := Size.add_of_lt hfits.2

/-- It has all its columns and lines. -/
theorem spanColumns_eq (hfits : a.Fits) : a.spanColumns = a.width := if_pos hfits.1

theorem spanLines_eq (hfits : a.Fits) : a.spanLines = a.height := if_pos hfits.2

/-- An area that fits ends inside an image exactly if it lies inside. -/
theorem endsWithin_iff_isWithin (hfits : a.Fits) :
    a.endsWithin columns lines = true ↔ a.isWithin columns lines = true := by
  rw [endsWithin_iff, isWithin_iff, right_eq hfits, bottom_eq hfits, IsInside]

/-- An area inside an image of sizes fits. -/
theorem fits_of_isWithin (hcolumns : columns < Size.limit) (hlines : lines < Size.limit)
    (hwithin : a.isWithin columns lines = true) : a.Fits := by
  obtain ⟨-, -, hright, hbottom⟩ := isWithin_iff.mp hwithin
  exact ⟨Nat.lt_of_le_of_lt hright hcolumns, Nat.lt_of_le_of_lt hbottom hlines⟩

/-- A whole image fits. -/
theorem fits_whole (hcolumns : columns < Size.limit) (hlines : lines < Size.limit) :
    (⟨0, 0, columns, lines⟩ : PixelArea).Fits :=
  ⟨(Nat.zero_add columns).symm ▸ hcolumns, (Nat.zero_add lines).symm ▸ hlines⟩

/-- An area that lies inside an image ends there. -/
theorem endsWithin_of_isWithin (hwithin : a.isWithin columns lines = true) :
    a.endsWithin columns lines = true := by
  obtain ⟨hwidth, hheight, hright, hbottom⟩ := isWithin_iff.mp hwithin
  exact endsWithin_iff.mpr ⟨hwidth, hheight, Nat.le_trans (Size.add_le _ _) hright,
    Nat.le_trans (Size.add_le _ _) hbottom⟩

/-- An area that does not fit has no pixel. -/
theorem spanColumns_mul_spanLines (hfits : ¬a.Fits) : a.spanColumns * a.spanLines = 0 := by
  unfold spanColumns spanLines
  split
  · rename_i hcolumns
    rw [if_neg fun hlines => hfits ⟨hcolumns, hlines⟩, Nat.mul_zero]
  · exact Nat.zero_mul _

/-- The check of an area looks at where it ends. -/
theorem checkWithin_eq_ok_iff :
    a.checkWithin columns lines = .ok () ↔ a.endsWithin columns lines = true := by
  unfold checkWithin
  split <;> simp_all

end SeviriImagery.PixelArea
