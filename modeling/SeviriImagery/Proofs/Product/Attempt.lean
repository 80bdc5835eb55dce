import SeviriImagery.Proofs.Frame.Reading

/-!
# The result of an attempt

An attempt to decode a product goes through its stages and leaves notes of them.  Its result does
not depend on the notes nor on the stage at which it starts: it is a chain of four steps, of which
the last reads the pixels of the area wanted (`LocatedProduct.attempt_result`).

The pixels of an area are counts or values, as the calibration has it.  What can be said of both alike
is said of the form in which they are kept (`FrameReader.readArea_eq`).

Where nothing less than the frame is wanted, the third and the fourth of them are simple: the area is
that of the frame, if it has pixels, and the image is the frame with its pixels.
-/

namespace SeviriImagery

/-- Samples that fill an image are its pixels. -/
theorem PixelData.make_of_size {columns lines : Nat} {samples : Samples}
    (hsize : samples.size % Size.limit = Size.mul columns lines) (bitsPerPixel : Nat) (gain : Gain)
    (scalesToInt : Bool) :
    PixelData.make columns lines samples bitsPerPixel gain scalesToInt =
      .ok ⟨columns, lines, gain, bitsPerPixel, scalesToInt, notANumber, samples⟩ :=
  if_neg (not_not.mpr hsize)

/-- How the pixels of an image are kept: what becomes of a count, what a pixel without one holds and
what the pixels are together.  To pick some of them is to pick some of what they are made of. -/
structure PixelForm (β : Type) where
  convert : Nat → Except FormatError β
  blank : β
  samples : Array β → Samples
  bitsPerPixel : Nat
  gain : Gain
  scalesToInt : Bool
  size_samples : ∀ pixels, (samples pixels).size = pixels.size
  gather_samples : ∀ pixels length index, (samples pixels).gather length index =
    samples (Array.ofFn (n := length) fun i => pixels.getD (index i) blank)

namespace PixelForm

/-- Pixels that are kept as the counts of a bit depth. -/
def ofCounts (bitsPerPixel : Nat) (gain : Gain) : PixelForm Nat where
  convert := FrameReader.checkedCount bitsPerPixel
  blank := 0
  samples := .counts (.ofDepth bitsPerPixel)
  bitsPerPixel
  gain
  scalesToInt := PixelData.scalesExactly gain
  size_samples _ := rfl
  gather_samples _ _ _ := rfl

/-- Pixels that are kept as the values of their counts. -/
def ofValues (c : Calibration) : PixelForm Float32 where
  convert := c.apply
  blank := notANumber
  samples := .values
  bitsPerPixel := PixelData.valueDepth
  gain := ⟨.one, c.gain.offset⟩
  scalesToInt := false
  size_samples _ := rfl
  gather_samples _ _ _ := rfl

variable {β : Type} (form : PixelForm β) (missing : Float32) {columns lines : Nat} {pixels : Array β}

/-- The image that pixels make up. -/
def image (columns lines : Nat) (pixels : Array β) : Except Error PixelData :=
  ((PixelData.make columns lines (form.samples pixels) form.bitsPerPixel form.gain
    form.scalesToInt).mapError Error.value).map fun d => { d with missingValue := missing }

/-- Pixels make up an image if they fill it. -/
theorem image_of_size (hsize : pixels.size % Size.limit = Size.mul columns lines) :
    form.image missing columns lines pixels =
      .ok ⟨columns, lines, form.gain, form.bitsPerPixel, form.scalesToInt, missing,
        form.samples pixels⟩ := by
  rw [image, PixelData.make_of_size (by rwa [form.size_samples])]
  rfl

/-- They make up one in no other case. -/
theorem eq_of_image {data : PixelData} (himage : form.image missing columns lines pixels = .ok data) :
    data = ⟨columns, lines, form.gain, form.bitsPerPixel, form.scalesToInt, missing,
      form.samples pixels⟩ := by
  by_cases hsize : pixels.size % Size.limit = Size.mul columns lines
  · rw [form.image_of_size missing hsize] at himage
    exact (Except.ok.inj himage).symm
  · rw [image, PixelData.make, if_pos (by rwa [form.size_samples])] at himage
    cases himage

end PixelForm

/-- How the pixels of an image are kept under a calibration. -/
def Calibration.pixelForm (c : Calibration) (bitsPerPixel : Nat) : (β : Type) × PixelForm β :=
  if c.keepsCounts then ⟨Nat, .ofCounts bitsPerPixel c.gain⟩ else ⟨Float32, .ofValues c⟩

namespace FrameReader

variable (r : FrameReader) (area : PixelArea) (c : Calibration) (bitsPerPixel : Nat)
  (options : DecodeOptions) (cache : SegmentCache)

/-- Where counts are kept, the pixels of an area are its counts. -/
theorem readArea_of_keepsCounts (hkeeps : c.keepsCounts = true) :
    r.readArea area c bitsPerPixel options cache =
      ((r.readCells area options.cancelled (checkedCount bitsPerPixel) 0 cache).1.bind fun counts =>
          ((PixelData.make area.width area.height (.counts (.ofDepth bitsPerPixel) counts) bitsPerPixel
            c.gain (PixelData.scalesExactly c.gain)).mapError Error.value).map
              fun d => { d with missingValue := options.missingValue },
        (r.readCells area options.cancelled (checkedCount bitsPerPixel) 0 cache).2) := by
  unfold readArea
  rw [if_pos hkeeps]
  rfl

/-- Where they are not, its pixels are the values that they have. -/
theorem readArea_of_not_keepsCounts (hkeeps : ¬c.keepsCounts = true) :
    r.readArea area c bitsPerPixel options cache =
      ((r.readCells area options.cancelled c.apply notANumber cache).1.bind fun values =>
          ((PixelData.make area.width area.height (.values values) PixelData.valueDepth
            ⟨.one, c.gain.offset⟩ false).mapError Error.value).map
              fun d => { d with missingValue := options.missingValue },
        (r.readCells area options.cancelled c.apply notANumber cache).2) := by
  unfold readArea
  rw [if_neg hkeeps]
  rfl

/-- **The pixels of an area** are its cells, in the form in which the calibration has them kept. -/
theorem readArea_eq :
    r.readArea area c bitsPerPixel options cache =
      ((r.readCells area options.cancelled (c.pixelForm bitsPerPixel).2.convert
          (c.pixelForm bitsPerPixel).2.blank cache).1.bind
            ((c.pixelForm bitsPerPixel).2.image options.missingValue area.width area.height),
        (r.readCells area options.cancelled (c.pixelForm bitsPerPixel).2.convert
          (c.pixelForm bitsPerPixel).2.blank cache).2) := by
  by_cases hkeeps : c.keepsCounts = true
  · rw [readArea_of_keepsCounts r area c bitsPerPixel options cache hkeeps, Calibration.pixelForm,
      if_pos hkeeps]
    rfl
  · rw [readArea_of_not_keepsCounts r area c bitsPerPixel options cache hkeeps,
      Calibration.pixelForm, if_neg hkeeps]
    rfl

end FrameReader

namespace LocatedProduct

variable {t : FileTree} {p : LocatedProduct} {options : DecodeOptions} {frame : Image}
  {r : FrameReader}

/-- Going from a stage to the next adds notes only. -/
theorem advance_result {α β : Type} (name : ProductName) (before after : Stage) (step : Noted α)
    (next : α → Noted β) :
    (advance name before after step next).result = (step.result >>= fun a => (next a).result) := by
  unfold advance
  cases step.result <;> rfl

/-- The image of an area, if its pixels can be read. -/
theorem fill_result (o : Opened) (calibration : Calibration) (frame : Image) (area : PixelArea) :
    (p.fill o calibration frame area options).result =
      (o.reader.readArea area calibration o.bitsPerPixel options .fresh).1.map
        (areaImage frame area o.reader.frame.columns) := by
  unfold fill
  generalize o.reader.readArea area calibration o.bitsPerPixel options .fresh = reading
  obtain ⟨data, cache⟩ := reading
  cases data <;> rfl

/-- The result of an attempt, without its notes. -/
theorem attempt_result (start : Stage) :
    (p.attempt t options start).result = (do
      let o ← (p.openHeaders t).result
      let c ← (calibration o options).result
      let area ← requestedArea (p.frameImage o) o.reader options
      (o.reader.readArea area c o.bitsPerPixel options .fresh).1.map
        (areaImage (p.frameImage o) area o.reader.frame.columns)) := by
  have hpure : ∀ outcome : Except Error Image,
      (outcome >>= fun image => (pure image : Noted Image).result) = outcome := by
    intro outcome
    cases outcome <;> rfl
  simp only [attempt, advance_result, fill_result, Noted.result_lift, hpure]

/-- A whole frame is asked for by asking for nothing less; it must have pixels. -/
theorem requestedArea_whole_eq_ok_iff {area : PixelArea} :
    requestedArea frame r { options with area := none, geoArea := none } = .ok area ↔
      area.endsWithin r.frame.columns r.frame.lines ∧
        area = ⟨0, 0, r.frame.columns, r.frame.lines⟩ := by
  simp only [requestedArea, PixelArea.checkWithin, pure, Except.pure, Outcome.ok_bind]
  split
  · rename_i hwithin
    simp only [Outcome.ok_bind, Except.ok.injEq]
    constructor
    · intro hsame
      subst hsame
      exact ⟨hwithin, rfl⟩
    · intro hgiven
      obtain ⟨-, rfl⟩ := hgiven
      rfl
  · rename_i hwithin
    simp only [Outcome.error_bind, reduceCtorEq, false_iff, not_and]
    intro harea hsame
    subst hsame
    exact hwithin harea

/-- The image of an area has its pixels, and remembers where it lies. -/
theorem areaImage_parts (frame : Image) (area : PixelArea) (columns : Nat) (data : PixelData) :
    (areaImage frame area columns data).data = data ∧
      (areaImage frame area columns data).x0 = area.x ∧
      (areaImage frame area columns data).y0 = area.y := by
  unfold areaImage
  split <;> exact ⟨rfl, rfl, rfl⟩

theorem areaImage_channelNumber (frame : Image) (area : PixelArea) (columns : Nat)
    (data : PixelData) : (areaImage frame area columns data).channelNumber = frame.channelNumber := by
  unfold areaImage
  split <;> rfl

/-- The image of a whole frame is the frame with its pixels. -/
theorem areaImage_whole (frame : Image) (columns lines : Nat) (data : PixelData) :
    areaImage frame ⟨0, 0, columns, lines⟩ columns data =
      { frame with data, x0 := 0, y0 := 0 } := by
  simp [areaImage]

end LocatedProduct

end SeviriImagery
