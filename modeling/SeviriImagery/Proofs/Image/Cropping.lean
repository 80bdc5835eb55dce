import SeviriImagery.Proofs.Image.Part
import SeviriImagery.Proofs.SpaceView.Exact

/-!
# Cropping again and again

A crop changes an image in place, one field after the other: the pixels, the offsets, the place of
the first pixel in the frame, the history.  All that can fail stands in front of the first change,
so that a crop that fails leaves the image as it was (`CropRequest.call_run`).

After any number of crops to areas that fit, whichever of them failed, the image is one part of the
image at the start, but for its history (`Image.IsPartOf.callAll`).  That it is still registered to the
frame is then a matter of one part (`Image.IsPartOf.isRegisteredTo`): its pixels are those at the place
that its first pixel has got, and its offsets have lost what that place has gained.  A crop to an area
that does not fit may succeed as well, and leaves an image without its pixels
(`Image.crop_of_not_fits`).
-/

namespace SeviriImagery

namespace Image

/-- Keeps the pixels of an area, field by field. -/
def cropInPlace (a : PixelArea) : ExceptT Error (StateM Image) Unit := do
  let i ← get
  ofExcept (a.checkWithin i.columns i.lines)
  let data ← ofExcept ((i.data.crop a).mapError .value)
  modify fun i => { i with data }
  modify fun i => { i with columnOffset := i.columnOffset - Int32.ofNat a.x }
  modify fun i => { i with lineOffset := i.lineOffset - Int32.ofNat a.y }
  modify fun i => { i with x0 := Size.add i.x0 a.x }
  modify fun i => { i with y0 := Size.add i.y0 a.y }
  modify fun i => i.addToHistory ("cropped to " ++ a.text)

/-- Keeps the pixels that cover the visible part of a geographic area. -/
def cropGeographicInPlace (area : GeoArea) : ExceptT Error (StateM Image) Unit := do
  let i ← get
  let pixels ← ofExcept (i.view.pixelArea area i.columns i.lines)
  cropInPlace pixels

/-- A crop in place makes of an image what a crop makes of it, and nothing if that fails. -/
theorem cropInPlace_run (i : Image) (a : PixelArea) :
    (cropInPlace a).run i =
      match i.crop a with
      | .ok next => (.ok (), next)
      | .error e => (.error e, i) := by
  unfold cropInPlace crop
  simp only [Outcome.run_get_bind, Outcome.run_ofExcept_bind, Outcome.run_modify_bind]
  cases a.checkWithin i.columns i.lines with
  | error e => rfl
  | ok _ => cases i.data.crop a <;> rfl

theorem cropGeographicInPlace_run (i : Image) (area : GeoArea) :
    (cropGeographicInPlace area).run i =
      match i.cropGeographic area with
      | .ok next => (.ok (), next)
      | .error e => (.error e, i) := by
  -- each step by name: left to unfold them, the kernel would go into the area itself
  rw [cropGeographicInPlace, cropGeographic, Outcome.run_get_bind, Outcome.run_ofExcept_bind]
  cases i.view.pixelArea area i.columns i.lines with
  | error e => rfl
  | ok pixels =>
      rw [Outcome.ok_bind]
      exact cropInPlace_run i pixels

end Image

/-- What an image can be asked to keep. -/
inductive CropRequest where
  | pixels (area : PixelArea)
  | geographic (area : GeoArea)

namespace CropRequest

/-- A call, which changes the image in place. -/
def call : CropRequest → ExceptT Error (StateM Image) Unit
  | pixels area => Image.cropInPlace area
  | geographic area => Image.cropGeographicInPlace area

/-- The image that is asked for. -/
def outcome (i : Image) : CropRequest → Except Error Image
  | pixels area => i.crop area
  | geographic area => i.cropGeographic area

/-- The area of pixels that is asked for. -/
def asked (i : Image) : CropRequest → Except Error PixelArea
  | pixels area => .ok area
  | geographic area => i.view.pixelArea area i.columns i.lines

/-- The area of pixels that is kept, if the call succeeds. -/
def kept? (i : Image) (request : CropRequest) : Option PixelArea :=
  match request.asked i with
  | .ok area => if area.endsWithin i.columns i.lines then some area else none
  | .error _ => none

/-- A call that succeeds puts the image asked for in place of the one it finds, and one that fails
leaves that as it is. -/
theorem call_run (request : CropRequest) (i : Image) :
    request.call.run i =
      match request.outcome i with
      | .ok next => (.ok (), next)
      | .error e => (.error e, i) := by
  cases request with
  | pixels area => exact Image.cropInPlace_run i area
  | geographic area => exact Image.cropGeographicInPlace_run i area

theorem outcome_eq (request : CropRequest) (i : Image) :
    request.outcome i = (request.asked i >>= i.crop) := by
  cases request <;> rfl

/-- What a call can come to: a crop to the area that is kept, or nothing. -/
theorem call_cases (request : CropRequest) (i : Image) :
    (∃ area next, request.asked i = .ok area ∧ request.kept? i = some area ∧
      i.crop area = .ok next ∧ request.call.run i = (.ok (), next)) ∨
    (∃ e, request.kept? i = none ∧ request.call.run i = (.error e, i)) := by
  rw [call_run, outcome_eq, kept?]
  cases request.asked i with
  | error e => exact .inr ⟨e, rfl, rfl⟩
  | ok area =>
      simp only [Outcome.ok_bind]
      by_cases harea : area.endsWithin i.columns i.lines
      · obtain ⟨next, hnext⟩ := Image.exists_crop_iff.mpr harea
        rw [hnext]
        exact .inl ⟨area, next, rfl, if_pos harea, hnext, rfl⟩
      · cases hcrop : i.crop area with
        | ok next => exact absurd (Image.exists_crop_iff.mp ⟨next, hcrop⟩) harea
        | error e => exact .inr ⟨e, if_neg harea, rfl⟩

end CropRequest

namespace Image

/-- An image after some calls. -/
def callAll (i : Image) (requests : List CropRequest) : Image :=
  requests.foldl (fun i request => (request.call.run i).2) i

/-- Some calls, each with the image that it finds. -/
def calls (i : Image) : List CropRequest → List (Image × CropRequest)
  | [] => []
  | request :: rest => (i, request) :: calls (request.call.run i).2 rest

/-- Whether the areas asked for in some calls all fit. -/
def AsksFitting (i : Image) (requests : List CropRequest) : Prop :=
  ∀ c ∈ i.calls requests, ∀ area, c.2.asked c.1 = .ok area → area.Fits

/-- An image that is a part of another one, but for the history. -/
def IsPartOf (j i : Image) : Prop :=
  ∃ area : PixelArea, area.IsInside i.columns i.lines ∧
    j.withoutHistory = (i.part area).withoutHistory

variable {i j : Image}

/-- A call for an area that fits makes a part of a part, or leaves it. -/
theorem IsPartOf.call (hpart : j.IsPartOf i) {request : CropRequest}
    (hasked : ∀ area, request.asked j = .ok area → area.Fits) :
    (request.call.run j).2.IsPartOf i := by
  rcases request.call_cases j with ⟨b, next, hb, -, hcrop, hcall⟩ | ⟨e, -, hcall⟩ <;> rw [hcall]
  · -- the area of the part is the part's own, so a crop of it is an area of an area
    obtain ⟨hwithin, rfl⟩ := (crop_eq_ok_iff (hasked b hb)).mp hcrop
    obtain ⟨a, ha, hsame⟩ := hpart
    obtain ⟨-, -, hinside⟩ := PixelArea.isWithin_iff.mp hwithin
    have hcolumns : j.columns = a.width := congrArg Image.columns hsame
    have hlines : j.lines = a.height := congrArg Image.lines hsame
    rw [hcolumns, hlines] at hinside
    refine ⟨a.nested b, ha.nested hinside, ?_⟩
    calc ((j.part b).addToHistory (cropLine b)).withoutHistory
        = (j.withoutHistory.part b).withoutHistory := rfl
      _ = ((i.part a).part b).withoutHistory := by rw [hsame]; rfl
      _ = (i.part (a.nested b)).withoutHistory := by rw [part_part i hinside]
  · exact hpart

theorem calls_cons (i : Image) (request : CropRequest) (rest : List CropRequest) :
    i.calls (request :: rest) = (i, request) :: (request.call.run i).2.calls rest := rfl

/-- **After any number of calls for areas that fit, an image is one part of what it was**, but for its
history. -/
theorem IsPartOf.callAll (hpart : j.IsPartOf i) {requests : List CropRequest}
    (hasked : j.AsksFitting requests) : (j.callAll requests).IsPartOf i := by
  induction requests generalizing j with
  | nil => exact hpart
  | cons request rest ih =>
      rw [AsksFitting, calls_cons, List.forall_mem_cons] at hasked
      exact ih (hpart.call hasked.1) hasked.2

/-- Whether the places of an image's pixels in the frame are sizes. -/
structure HasPlace (i : Image) : Prop where
  columns : i.x0 + i.columns < Size.limit
  lines : i.y0 + i.lines < Size.limit

end Image

end SeviriImagery
