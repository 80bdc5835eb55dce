import SeviriImagery.Proofs.Frame.Loading
import SeviriImagery.Proofs.Product.Calibrated

/-!
# What an area loads

An area needs the segments that are there and hold one of its lines.  Filling it loads these and no
others, each of them once; and it stops with an error at the northernmost line of the area whose
segment cannot be loaded, whether or not the columns of the area have data there
(`FrameReader.readArea_loads_needed`).

How an area is filled depends on what becomes of its counts.  `FrameReader.FillsAs` is what the two
ways have in common: what is known of the outcome and of the cache that is left.

The calibration that a product is given accepts every sample of its segments, so that nothing but a
segment that cannot be loaded stands in the way of its decoding (`LocatedProduct.loads_needed`).
-/

namespace SeviriImagery

namespace Calibration

/-- A count is accepted if an area can be filled with what it becomes. -/
def Accepts (c : Calibration) (bitsPerPixel count : Nat) : Prop :=
  if c.keepsCounts then count < 1 <<< bitsPerPixel else ∃ value, c.apply count = .ok value

/-- These are the counts of which a pixel can be made. -/
theorem accepts_iff {c : Calibration} {bitsPerPixel count : Nat} :
    c.Accepts bitsPerPixel count ↔
      ∃ value, (c.pixelForm bitsPerPixel).2.convert count = .ok value := by
  by_cases hkeeps : c.keepsCounts = true
  · rw [Accepts, if_pos hkeeps, pixelForm, if_pos hkeeps]
    show count < 1 <<< bitsPerPixel ↔
      ∃ value, FrameReader.checkedCount bitsPerPixel count = .ok value
    by_cases hcount : count < 1 <<< bitsPerPixel
    · rw [FrameReader.checkedCount, if_pos hcount]
      exact ⟨fun _ => ⟨count, rfl⟩, fun _ => hcount⟩
    · rw [FrameReader.checkedCount, if_neg hcount]
      refine ⟨fun hless => absurd hless hcount, fun hgiven => ?_⟩
      obtain ⟨value, hvalue⟩ := hgiven
      cases hvalue
  · rw [Accepts, if_neg hkeeps, pixelForm, if_neg hkeeps]
    rfl

/-- A calibration by a table has an entry in it, so that it has a value for count 0. -/
def HasEntries (c : Calibration) : Prop :=
  ∀ values baseline, c = .table values baseline → 0 < values.size

/-- A table for a bit depth is not empty. -/
theorem hasEntries_ofTable {values : Array Float32} {bitsPerPixel : Nat} {baseline : Float32}
    {c : Calibration} (htable : ofTable values bitsPerPixel baseline = .ok c) : c.HasEntries := by
  unfold ofTable at htable
  split at htable
  · cases htable
  · rename_i hlarge
    cases htable
    intro stored taken hsame
    cases hsame
    have hone : 0 < 1 <<< bitsPerPixel := by rw [Nat.one_shiftLeft]; exact Nat.two_pow_pos _
    omega

/-- The calibration of a channel has a value for count 0. -/
theorem hasEntries_ofChannel {radiometry : Radiometry} {channel : Channel} {bitsPerPixel : Nat}
    {c : Calibration} (hchannel : ofChannel radiometry channel bitsPerPixel = .ok c) :
    c.HasEntries := by
  unfold ofChannel at hchannel
  split at hchannel
  · cases hchannel
    intro values baseline hsame
    cases hsame
  · obtain ⟨values, -, htable⟩ := Outcome.bind_eq_ok_iff.mp hchannel
    exact hasEntries_ofTable htable

/-- The calibration of a channel accepts every count of its depth. -/
theorem accepts_of_ofChannel {radiometry : Radiometry} {channel : Channel} {bitsPerPixel count : Nat}
    {c : Calibration} (hchannel : ofChannel radiometry channel bitsPerPixel = .ok c)
    (hcount : count < 1 <<< bitsPerPixel) : c.Accepts bitsPerPixel count := by
  unfold ofChannel at hchannel
  split at hchannel
  · cases hchannel
    exact hcount
  · obtain ⟨values, -, htable⟩ := Outcome.bind_eq_ok_iff.mp hchannel
    unfold ofTable at htable
    split at htable
    · cases htable
    · rename_i hlarge
      cases htable
      have hentry : count < values.size := by omega
      exact ⟨values[count] - channel.baseline, by rw [apply, dif_pos hentry]⟩

/-- Count 0, which stands for absent data, is accepted. -/
theorem accepts_zero {c : Calibration} (hentries : c.HasEntries) (bitsPerPixel : Nat) :
    c.Accepts bitsPerPixel 0 := by
  have hone : 0 < 1 <<< bitsPerPixel := by rw [Nat.one_shiftLeft]; exact Nat.two_pow_pos _
  cases c with
  | identity => exact hone
  | linear gain => exact hone
  | table values baseline =>
      have hentry : 0 < values.size := hentries values baseline rfl
      exact ⟨values[0] - baseline, by rw [apply, dif_pos hentry]⟩

end Calibration

namespace FrameReader

variable {r : FrameReader} {area : PixelArea}

/-- A segment is needed for an area if it is there and holds one of its lines. -/
def IsNeeded (r : FrameReader) (area : PixelArea) (k : Nat) : Prop :=
  r.source.offers k ∧ ∃ y, area.y ≤ y ∧ y < area.y + area.height ∧ r.frame.HoldsLine k y

/-- A segment that cannot be loaded is the first one of an area if it holds a line of the area and
all segments needed for the lines above can be loaded. -/
def FailsFirst (r : FrameReader) (area : PixelArea) (k : Nat) (e : Error) : Prop :=
  r.source.offers k ∧ r.source.load k = .error e ∧
    ∃ y, area.y ≤ y ∧ y < area.y + area.height ∧ r.frame.HoldsLine k y ∧
      ∀ above k', area.y ≤ above → above < y → r.frame.HoldsLine k' above →
        r.source.offers k' → ∃ samples, r.source.load k' = .ok samples

/-- What is known when the lines of an area were gone through from north to south: all of them were
read, or all above one whose segment was tried and cannot be loaded. -/
def FillsAs {α : Type} (r : FrameReader) (area : PixelArea) :
    Except Error α × SegmentCache → Prop
  | (.ok _, cache) => r.HasRead area.y (area.y + area.height) cache ∧
      ∀ line, area.y ≤ line → line < area.y + area.height →
        ∃ samples, r.source.segment (r.frame.lineSegment line) = .ok samples
  | (.error e, cache) => ∃ line before, (area.y ≤ line ∧ line < area.y + area.height) ∧
      (r.HasRead area.y line before ∧ r.frame.lineSegment line ∉ before.tried ∧
        cache.tried = r.frame.lineSegment line :: before.tried) ∧
      r.source.segment (r.frame.lineSegment line) = .error e ∧
      ∀ above, area.y ≤ above → above < line →
        ∃ samples, r.source.segment (r.frame.lineSegment above) = .ok samples

/-- What is made of the pixels afterwards changes nothing, if it does not fail. -/
theorem FillsAs.bind {α β : Type} {outcome : Except Error α} {cache : SegmentCache}
    {next : α → Except Error β} (hfills : r.FillsAs area (outcome, cache))
    (hnext : ∀ a, outcome = .ok a → ∃ b, next a = .ok b) :
    r.FillsAs area (outcome.bind next, cache) := by
  cases outcome with
  | error e => exact hfills
  | ok a =>
      obtain ⟨b, hb⟩ := hnext a rfl
      show r.FillsAs area (next a, cache)
      rw [hb]
      exact hfills

section Filling

variable (hcovered : r.frame.IsCovered) (hcolumns : 0 < r.frame.segmentColumns)
  (hfits : area.Fits) (harea : area.isWithin r.frame.columns r.frame.lines)

include hcovered hcolumns harea

/-- The rows of an area are read to their end, or to the first one whose segment fails. -/
theorem readRows_fillsAs {β : Type} {convert : Nat → Except FormatError β}
    (hconvert : ∀ line counts, r.lineCounts line = .ok counts →
      ∀ c ∈ counts, ∃ value, convert c = .ok value) (done : Array β) :
    r.FillsAs area (r.readRows area false convert area.height area.y done .fresh) := by
  simp only [PixelArea.isWithin, Bool.and_eq_true, decide_eq_true_eq] at harea
  have hfresh := hasRead_fresh r area.y
  by_cases hloads : ∀ line, area.y ≤ line → line < area.y + area.height →
      ∃ samples, r.source.segment (r.frame.lineSegment line) = .ok samples
  · obtain ⟨out, next, hread, hnext⟩ := readRows_loaded area hcovered hcolumns hconvert hfresh
      (Nat.le_refl _) harea.2 hloads done
    rw [hread]
    exact ⟨hnext, hloads⟩
  · have hfailing : ∃ line, area.y ≤ line ∧ line < area.y + area.height ∧
        ∃ e, r.source.segment (r.frame.lineSegment line) = .error e := by
      simp only [not_forall, not_exists] at hloads
      obtain ⟨line, hle, hlt, hfails⟩ := hloads
      cases hsegment : r.source.segment (r.frame.lineSegment line) with
      | ok samples => exact absurd hsegment (hfails samples)
      | error e => exact ⟨line, hle, hlt, e, hsegment⟩
    -- The northernmost of the lines that fail is the one at which the reading stops.
    classical
    obtain ⟨hle, hlt, e, hfails⟩ := Nat.find_spec hfailing
    have hbefore : ∀ above, area.y ≤ above → above < Nat.find hfailing →
        ∃ samples, r.source.segment (r.frame.lineSegment above) = .ok samples := by
      intro above habove hfirst
      cases hsegment : r.source.segment (r.frame.lineSegment above) with
      | ok samples => exact ⟨samples, rfl⟩
      | error e' =>
          exact absurd ⟨habove, hfirst.trans hlt, e', hsegment⟩ (Nat.find_min hfailing hfirst)
    obtain ⟨before, next, hread, htried⟩ := readRows_failed area hcovered hcolumns hconvert hfresh
      (Nat.le_refl _) harea.2 hle hlt hbefore hfails done
    rw [hread]
    exact ⟨_, before, ⟨hle, hlt⟩, htried, hfails, hbefore⟩

include hfits

/-- An area that fits is filled as its rows are read. -/
theorem readArea_fillsAs {calibration : Calibration} {bitsPerPixel : Nat} {options : DecodeOptions}
    (hcancelled : options.cancelled = false)
    (haccepts : ∀ line counts, r.lineCounts line = .ok counts →
      ∀ c ∈ counts, calibration.Accepts bitsPerPixel c) :
    r.FillsAs area (r.readArea area calibration bitsPerPixel options .fresh) := by
  have hconvert : ∀ line counts, r.lineCounts line = .ok counts →
      ∀ c ∈ counts, ∃ value, (calibration.pixelForm bitsPerPixel).2.convert c = .ok value :=
    fun line counts hline c hc => Calibration.accepts_iff.mp (haccepts line counts hline c hc)
  rw [readArea_eq, hcancelled, readCells_of_fits hfits]
  refine (readRows_fillsAs hcovered hcolumns harea hconvert #[]).bind fun pixels hpixels => ?_
  have hfull := size_of_readRows (SegmentCache.agrees_fresh r.source) harea hpixels
  exact ⟨_, PixelForm.image_of_size _ _ (by rw [hfull, Size.mul])⟩

end Filling

namespace FillsAs

variable {α : Type} {outcome : Except Error α} {cache : SegmentCache}
  (hneeded : ∀ k, r.IsNeeded area k ↔
    r.source.offers k ∧ ∃ line, area.y ≤ line ∧ line < area.y + area.height ∧
      r.frame.lineSegment line = k)

include hneeded

/-- The segments that are tried are needed, and none is tried twice. -/
theorem tried (hfills : r.FillsAs area (outcome, cache)) :
    (∀ k ∈ cache.tried, r.IsNeeded area k) ∧ cache.tried.Nodup := by
  cases outcome with
  | ok a =>
      obtain ⟨hread, -⟩ := hfills
      exact ⟨fun k hk => (hneeded k).mpr ((hread.mem_tried k).mp hk), hread.nodup⟩
  | error e =>
      obtain ⟨line, before, ⟨hle, hlt⟩, ⟨hread, hnew, htried⟩, hfails, -⟩ := hfills
      rw [htried]
      refine ⟨fun k hk => (hneeded k).mpr ?_, List.nodup_cons.mpr ⟨hnew, hread.nodup⟩⟩
      rcases List.mem_cons.mp hk with rfl | hbefore
      · exact ⟨(SegmentSource.segment_eq_error_iff.mp hfails).1, line, hle, hlt, rfl⟩
      · obtain ⟨hoffers, above, habove, hfirst, hsame⟩ := (hread.mem_tried k).mp hbefore
        exact ⟨hoffers, above, habove, hfirst.trans hlt, hsame⟩

/-- If all segments needed can be loaded, then each of them was, once. -/
theorem loaded (hfills : r.FillsAs area (outcome, cache))
    (hloads : ∀ k, r.IsNeeded area k → ∃ samples, r.source.load k = .ok samples) :
    (∃ a, outcome = .ok a) ∧ (∀ k, r.IsNeeded area k → cache.tried.count k = 1) ∧
      cache.loads = cache.tried.length := by
  cases outcome with
  | ok a =>
      obtain ⟨hread, -⟩ := hfills
      refine ⟨⟨a, rfl⟩, fun k hk => ?_, hread.loads⟩
      exact List.count_eq_one_of_mem hread.nodup ((hread.mem_tried k).mpr ((hneeded k).mp hk))
  | error e =>
      obtain ⟨line, before, ⟨hle, hlt⟩, -, hfails, -⟩ := hfills
      obtain ⟨hoffers, hload⟩ := SegmentSource.segment_eq_error_iff.mp hfails
      obtain ⟨samples, hsamples⟩ := hloads _ ((hneeded _).mpr ⟨hoffers, line, hle, hlt, rfl⟩)
      rw [hload] at hsamples
      cases hsamples

end FillsAs

/-- A line depends on its source only in the segment that holds it. -/
theorem line_congr {other : SegmentSource} {y : Nat}
    (hsame : other.offers (r.frame.lineSegment y) = r.source.offers (r.frame.lineSegment y) ∧
      other.load (r.frame.lineSegment y) = r.source.load (r.frame.lineSegment y))
    (length : Nat) (cache : SegmentCache) :
    ({ r with source := other } : FrameReader).line y length cache = r.line y length cache := by
  have hsegment : ({ r with source := other } : FrameReader).segment (r.frame.lineSegment y) cache =
      r.segment (r.frame.lineSegment y) cache := SegmentCache.segment_congr hsame.1 hsame.2 cache
  unfold line
  simp only [hsegment]
  rfl

/-- The rows of an area depend on their source only in the segments that hold them. -/
theorem readRows_congr {β : Type} {other : SegmentSource} {convert : Nat → Except FormatError β}
    {cancelled : Bool} {rows y : Nat}
    (hsame : ∀ line, y ≤ line → line < y + rows →
      other.offers (r.frame.lineSegment line) = r.source.offers (r.frame.lineSegment line) ∧
        other.load (r.frame.lineSegment line) = r.source.load (r.frame.lineSegment line))
    (done : Array β) (cache : SegmentCache) :
    ({ r with source := other } : FrameReader).readRows area cancelled convert rows y done cache =
      r.readRows area cancelled convert rows y done cache := by
  induction rows generalizing y done cache with
  | zero => rfl
  | succ rows ih =>
      have hline := line_congr (hsame y (Nat.le_refl y) (by omega)) r.frame.columns cache
      have hrest := @ih (y + 1) fun line hle hlt => hsame line (by omega) (by omega)
      unfold readRows
      simp only [hline, hrest]

/-- The pixels of an area that fits depend on their source only in the segments that hold its lines. -/
theorem readArea_congr (hfits : area.Fits) {other : SegmentSource}
    (hsame : ∀ line, area.y ≤ line → line < area.y + area.height →
      other.offers (r.frame.lineSegment line) = r.source.offers (r.frame.lineSegment line) ∧
        other.load (r.frame.lineSegment line) = r.source.load (r.frame.lineSegment line))
    (calibration : Calibration) (bitsPerPixel : Nat) (options : DecodeOptions)
    (cache : SegmentCache) :
    ({ r with source := other } : FrameReader).readArea area calibration bitsPerPixel options
        cache = r.readArea area calibration bitsPerPixel options cache := by
  unfold readArea
  simp only [readCells_of_fits hfits, readRows_congr hsame]

section Source

variable (hfits : r.frame.Fits) (hcovered : r.frame.IsCovered)
  (hcolumns : 0 < r.frame.segmentColumns) (harea : area.isWithin r.frame.columns r.frame.lines)

include hfits hcovered hcolumns harea

/-- The segments needed for an area are those of its lines, as far as they are there. -/
theorem isNeeded_iff (k : Nat) : r.IsNeeded area k ↔ r.source.offers k ∧
    ∃ line, area.y ≤ line ∧ line < area.y + area.height ∧ r.frame.lineSegment line = k := by
  obtain ⟨-, -, -, hlines⟩ := PixelArea.isWithin_iff.mp harea
  refine and_congr_right fun _ => exists_congr fun line => and_congr_right fun _ => ?_
  exact and_congr_right fun hlt =>
    Frame.holdsLine_iff hfits hcovered hcolumns (Nat.lt_of_lt_of_le hlt hlines)

/-- An area is filled as its rows are read if the samples of its source are accepted. -/
theorem fillsAs_of_accepts {calibration : Calibration} {bitsPerPixel : Nat}
    {options : DecodeOptions} (hcancelled : options.cancelled = false)
    (hentries : calibration.HasEntries)
    (haccepts : ∀ k samples, r.source.offers k → r.source.load k = .ok samples →
      ∀ count ∈ samples, calibration.Accepts bitsPerPixel count) :
    r.FillsAs area (r.readArea area calibration bitsPerPixel options .fresh) := by
  obtain ⟨-, hheight, -, hlines⟩ := PixelArea.isWithin_iff.mp harea
  have hsized : area.Fits :=
    PixelArea.fits_of_isWithin (hfits.columns_lt (by omega)) (Size.mul_lt _ _) harea
  refine readArea_fillsAs hcovered hcolumns hsized harea hcancelled ?_
  intro line counts hline c hc
  rcases mem_source_of_mem_lineCounts hline hc with rfl | ⟨k, samples, hoffers, hload, hmem⟩
  · exact Calibration.accepts_zero hentries bitsPerPixel
  · exact haccepts k samples hoffers hload c hmem

end Source

/-- **An area loads the segments that it needs, each of them once, and hides no failure.**  No
segment is tried that is absent or holds no line of the area, and none is tried twice.  If all
segments needed can be loaded, each of them is, and the area is filled; if one of them cannot, the
error is that of the first, whichever columns were asked for.  What comes out, and what is loaded,
does not depend on the segments that hold no line of the area. -/
theorem readArea_loads_needed {calibration : Calibration} {bitsPerPixel : Nat}
    {options : DecodeOptions} (hfits : r.frame.Fits) (hcovered : r.frame.IsCovered)
    (hcolumns : 0 < r.frame.segmentColumns) (harea : area.isWithin r.frame.columns r.frame.lines)
    (hcancelled : options.cancelled = false) (hentries : calibration.HasEntries)
    (haccepts : ∀ k samples, r.source.offers k → r.source.load k = .ok samples →
      ∀ count ∈ samples, calibration.Accepts bitsPerPixel count) :
    ((∀ k ∈ (r.readArea area calibration bitsPerPixel options .fresh).2.tried, r.IsNeeded area k) ∧
      (r.readArea area calibration bitsPerPixel options .fresh).2.tried.Nodup) ∧
    ((∀ k, r.IsNeeded area k → ∃ samples, r.source.load k = .ok samples) →
      (∃ data, (r.readArea area calibration bitsPerPixel options .fresh).1 = .ok data) ∧
      (∀ k, r.IsNeeded area k →
        (r.readArea area calibration bitsPerPixel options .fresh).2.tried.count k = 1) ∧
      (r.readArea area calibration bitsPerPixel options .fresh).2.loads =
        (r.readArea area calibration bitsPerPixel options .fresh).2.tried.length) ∧
    ((∃ k e, r.IsNeeded area k ∧ r.source.load k = .error e) →
      ∃ k e, r.FailsFirst area k e ∧
        (r.readArea area calibration bitsPerPixel options .fresh).1 = .error e) ∧
    ∀ other : SegmentSource,
      (∀ k y, area.y ≤ y → y < area.y + area.height → r.frame.HoldsLine k y →
        other.offers k = r.source.offers k ∧ other.load k = r.source.load k) →
      ({ r with source := other } : FrameReader).readArea area calibration bitsPerPixel options
          .fresh = r.readArea area calibration bitsPerPixel options .fresh := by
  obtain ⟨-, hheight, -, hlines⟩ := PixelArea.isWithin_iff.mp harea
  have hsized : area.Fits :=
    PixelArea.fits_of_isWithin (hfits.columns_lt (by omega)) (Size.mul_lt _ _) harea
  have hholds : ∀ {k y}, y < area.y + area.height →
      (r.frame.HoldsLine k y ↔ r.frame.lineSegment y = k) := fun hlt =>
    Frame.holdsLine_iff hfits hcovered hcolumns (Nat.lt_of_lt_of_le hlt hlines)
  have hneeded := isNeeded_iff hfits hcovered hcolumns harea
  have hfills := fillsAs_of_accepts hfits hcovered hcolumns harea hcancelled hentries haccepts
  refine ⟨hfills.tried hneeded, hfills.loaded hneeded, ?_, ?_⟩
  · intro hgiven
    obtain ⟨k, e, hk, hload⟩ := hgiven
    obtain ⟨hoffers, line, hle, hlt, rfl⟩ := (hneeded k).mp hk
    generalize r.readArea area calibration bitsPerPixel options .fresh = reading at hfills ⊢
    obtain ⟨outcome, cache⟩ := reading
    cases outcome with
    | ok data =>
        obtain ⟨samples, hsamples⟩ :=
          SegmentSource.exists_segment_iff.mp (hfills.2 line hle hlt) hoffers
        rw [hload] at hsamples
        cases hsamples
    | error e =>
        obtain ⟨first, -, ⟨hle', hlt'⟩, -, hfails, hbefore⟩ := hfills
        obtain ⟨hthere, hfirst⟩ := SegmentSource.segment_eq_error_iff.mp hfails
        refine ⟨_, e, ⟨hthere, hfirst, first, hle', hlt', (hholds hlt').mpr rfl, ?_⟩, rfl⟩
        intro above k' habove hlast hline
        rw [← (hholds (hlast.trans hlt')).mp hline]
        exact SegmentSource.exists_segment_iff.mp (hbefore above habove hlast)
  · intro other hsame
    refine readArea_congr hsized (fun line hle hlt => ?_) calibration bitsPerPixel options .fresh
    exact hsame _ line hle hlt ((hholds hlt).mpr rfl)

/-- A frame of the high-resolution channel, one segment of which cannot be loaded. -/
def brokenFrame : FrameReader where
  frame := Frame.shiftedHalves
  shape := ⟨5568, 464, 10⟩
  source := ⟨24, fun _ => true, fun k =>
    if k = 22 then .error (.file "segment" (.io .notFound))
    else .ok (Array.replicate Frame.shiftedHalves.segmentPixels 5)⟩

/-- In the westernmost column no line has data, but some lines of the area are held by the segment
that fails, and so the area fails. -/
theorem readArea_beside_strips :
    (∀ y < brokenFrame.frame.lines, brokenFrame.frame.resolve 0 y = none) ∧
      (brokenFrame.readArea ⟨0, 460, 1, 10⟩ .identity 10 .standard .fresh).1 =
        .error (.file "segment" (.io .notFound)) ∧
      ∀ k ∈ (brokenFrame.readArea ⟨0, 460, 1, 10⟩ .identity 10 .standard .fresh).2.tried,
        k = 22 ∨ k = 23 := by
  have hfits : brokenFrame.frame.Fits := ⟨by decide, by decide⟩
  have hcovered : brokenFrame.frame.IsCovered := Frame.isCovered_shiftedHalves
  have hcolumns : 0 < brokenFrame.frame.segmentColumns := by decide
  have hbroken : brokenFrame.source.load 22 = .error (.file "segment" (.io .notFound)) := rfl
  have hload : ∀ k, k ≠ 22 → brokenFrame.source.load k =
      .ok (Array.replicate Frame.shiftedHalves.segmentPixels 5) := fun k hk => if_neg hk
  have haccepts : ∀ k samples, brokenFrame.source.offers k →
      brokenFrame.source.load k = .ok samples →
        ∀ count ∈ samples, Calibration.identity.Accepts 10 count := by
    intro k samples _ hsamples count hcount
    by_cases hk : k = 22
    · rw [hk, hbroken] at hsamples
      cases hsamples
    · rw [hload k hk] at hsamples
      cases hsamples
      rw [(Array.mem_replicate.mp hcount).2]
      exact (by decide : 5 < 1 <<< 10)
  obtain ⟨⟨htried, -⟩, -, hfails, -⟩ := @readArea_loads_needed brokenFrame ⟨0, 460, 1, 10⟩
    .identity 10 .standard hfits hcovered hcolumns (by decide) rfl (fun _ _ hsame => by cases hsame)
    haccepts
  have hneeded : brokenFrame.IsNeeded ⟨0, 460, 1, 10⟩ 22 :=
    ⟨by decide, 465, by decide, by decide,
      (Frame.holdsLine_iff hfits hcovered hcolumns (by decide)).mpr (by decide)⟩
  refine ⟨?_, ?_, ?_⟩
  · intro y hy
    rw [← Option.not_isSome_iff_eq_none, Frame.isSome_resolve_iff hcovered hy]
    have hstart : 0 < brokenFrame.frame.lineStart y := by
      show 0 < highResolutionColumns - _
      split <;> decide
    omega
  · obtain ⟨k, e, ⟨-, hfailed, -⟩, hresult⟩ := hfails ⟨22, _, hneeded, hbroken⟩
    rw [hresult]
    by_cases hk : k = 22
    · rw [hk, hbroken] at hfailed
      cases hfailed
      rfl
    · rw [hload k hk] at hfailed
      cases hfailed
  · intro k hk
    obtain ⟨-, y, hle, hlt, hline⟩ := htried k hk
    have hy : y < brokenFrame.frame.lines := Nat.lt_of_lt_of_le hlt (by decide)
    rw [← (Frame.holdsLine_iff hfits hcovered hcolumns hy).mp hline]
    have hlast : brokenFrame.frame.lines = 464 * 24 := by decide
    have hstored : brokenFrame.frame.lineSegment y = (464 * 24 - 1 - y) / 464 := by
      rw [Frame.lineSegment, Frame.storedLine_eq hy, hlast]
      rfl
    simp only at hle hlt
    omega

end FrameReader

namespace LocatedProduct

variable {t : FileTree} {p : LocatedProduct} {o : Opened} {options : DecodeOptions}
  {c : Calibration} {area : PixelArea}

/-- The calibration that is wanted has a value for every count of the product's depth. -/
theorem accepts_of_calibration (hcalibration : (calibration o options).result = .ok c) :
    c.HasEntries ∧ ∀ count < 1 <<< o.bitsPerPixel, c.Accepts o.bitsPerPixel count := by
  rw [calibration_result] at hcalibration
  split at hcalibration
  · have hchannel := Outcome.mapError_eq_ok_iff.mp hcalibration
    exact ⟨Calibration.hasEntries_ofChannel hchannel,
      fun _ hcount => Calibration.accepts_of_ofChannel hchannel hcount⟩
  · cases hcalibration
    exact ⟨nofun, fun _ hcount => hcount⟩

/-- **A product is decoded from the segments that its area needs.**  Whatever calibration is wanted of
it, no segment is tried that is absent or holds no line of the area, none is tried twice, and if
those needed can be loaded, then each was, once, and the area is filled. -/
theorem loads_needed (hopen : (p.openHeaders t).result = .ok o)
    (hcalibration : (calibration o options).result = .ok c)
    (hcolumns : 0 < o.reader.frame.segmentColumns)
    (harea : area.isWithin o.reader.frame.columns o.reader.frame.lines)
    (hcancelled : options.cancelled = false) :
    let reading := o.reader.readArea area c o.bitsPerPixel options .fresh
    ((∀ k ∈ reading.2.tried, o.reader.IsNeeded area k) ∧ reading.2.tried.Nodup) ∧
    ((∀ k, o.reader.IsNeeded area k → ∃ samples, o.reader.source.load k = .ok samples) →
      (∃ data, reading.1 = .ok data) ∧
        ∀ k, o.reader.IsNeeded area k → reading.2.tried.count k = 1) := by
  obtain ⟨hentries, haccepts⟩ := accepts_of_calibration hcalibration
  obtain ⟨shape, hdepth, hsource⟩ := (isReadFrom_of_openHeaders hopen).source
  have hfits := (isOfWords_of_openHeaders hopen).fits
  have hcovered := isCovered_of_openHeaders hopen
  have hneeded := FrameReader.isNeeded_iff hfits hcovered hcolumns harea
  have hfills := FrameReader.fillsAs_of_accepts hfits hcovered hcolumns harea hcancelled hentries
    (fun k samples _ hload count hcount => haccepts count (by
      rw [Nat.one_shiftLeft, ← hdepth]
      rw [hsource] at hload
      exact SegmentSource.lt_of_mem_ofFiles hload hcount))
  refine ⟨hfills.tried hneeded, fun hloads => ?_⟩
  obtain ⟨hdata, honce, -⟩ := hfills.loaded hneeded hloads
  exact ⟨hdata, honce⟩

end LocatedProduct

end SeviriImagery
