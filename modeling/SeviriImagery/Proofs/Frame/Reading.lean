import SeviriImagery.Product.Assembly
import SeviriImagery.Proofs.Area
import SeviriImagery.Proofs.Outcome

/-!
# What the pixels of an area depend on

An area is read line by line through a cache, and each line is converted count by count.  This file
says what comes out, without the cache: a cache that started empty holds nothing but what its source
has (`SegmentCache.Agrees`), and so a line is what the source makes of it, whichever lines were read
before.  What is read of an area is then one converted count for each of its pixels, and reading
succeeds exactly if each of these does (`FrameReader.readRows_of_pixels` and
`FrameReader.pixels_of_readRows`).  Two areas of one frame therefore agree wherever they overlap.

So it is with an area that fits.  Of one whose last line has gone round nothing is read, and all its
cells are blank; and one of which only the last column has gone round gives no cells at all
(`FrameReader.readCells_cases`).
-/

namespace SeviriImagery

/-- The place of a pixel, line by line, says which pixel it is. -/
theorem PixelData.place_spec {columns lines x y : Nat} (hx : x < columns) (hy : y < lines) :
    y * columns + x < lines * columns ∧ (y * columns + x) % columns = x ∧
      (y * columns + x) / columns = y := by
  refine ⟨?_, ?_, ?_⟩
  · calc y * columns + x < y * columns + columns := Nat.add_lt_add_left hx _
      _ = (y + 1) * columns := (Nat.succ_mul y columns).symm
      _ ≤ lines * columns := Nat.mul_le_mul_right columns hy
  · rw [Nat.mul_comm, Nat.mul_add_mod, Nat.mod_eq_of_lt hx]
  · rw [Nat.mul_comm, Nat.mul_add_div (Nat.zero_lt_of_lt hx), Nat.div_eq_of_lt hx, Nat.add_zero]

/-- What a source has for a segment; nothing if it does not offer it. -/
def SegmentSource.segment (source : SegmentSource) (index : Nat) :
    Except Error (Option (Array Nat)) :=
  if source.offers index then (source.load index).map some else .ok none

namespace SegmentCache

variable {source : SegmentSource} {cache : SegmentCache}

/-- A cache agrees with a source if the segment that it holds is the one that the source has. -/
def Agrees (source : SegmentSource) (cache : SegmentCache) : Prop :=
  ∀ index samples, cache.held = .holding index samples → source.load index = .ok samples

/-- A cache with nothing in it contradicts no source. -/
theorem agrees_fresh (source : SegmentSource) : fresh.Agrees source := by
  intro index samples hheld
  cases hheld

/-- A segment that is loaded anew is what the source has. -/
theorem reload_result (source : SegmentSource) (index : Nat) (cache : SegmentCache) :
    (reload source index cache).1 = source.load index := by
  unfold reload
  split <;> simp_all

/-- What is kept of it is what the source has, too. -/
theorem agrees_reload (source : SegmentSource) (index : Nat) (cache : SegmentCache) :
    (reload source index cache).2.Agrees source := by
  unfold reload
  split
  · rename_i samples hload
    intro held stored hheld
    cases hheld
    exact hload
  · intro held stored hheld
    cases hheld

/-- A segment that is kept is the one that would be loaded. -/
theorem fetch_result (hcache : cache.Agrees source) (index : Nat) :
    (fetch source index cache).1 = source.load index := by
  unfold fetch
  split
  · rename_i held samples hheld
    by_cases hindex : held = index
    · rw [if_pos hindex, ← hindex]
      exact (hcache held samples hheld).symm
    · rw [if_neg hindex]
      exact reload_result source index cache
  · exact reload_result source index cache

/-- Fetching a segment leaves a cache that agrees with the source. -/
theorem agrees_fetch (hcache : cache.Agrees source) (index : Nat) :
    (fetch source index cache).2.Agrees source := by
  unfold fetch
  split
  · split
    · exact hcache
    · exact agrees_reload source index cache
  · exact agrees_reload source index cache

/-- A request for a segment is answered as the source answers it. -/
theorem segment_result (hcache : cache.Agrees source) (index : Nat) :
    (segment source index cache).1 = source.segment index := by
  unfold segment SegmentSource.segment
  split
  · simp only
    rw [fetch_result hcache]
  · rfl

/-- It leaves a cache that agrees with the source. -/
theorem agrees_segment (hcache : cache.Agrees source) (index : Nat) :
    (segment source index cache).2.Agrees source := by
  unfold segment
  split
  · exact agrees_fetch hcache index
  · exact hcache

end SegmentCache

namespace FrameReader

variable {r : FrameReader} {cache : SegmentCache} {x y : Nat} {counts : Array Nat}

/-- The count of a pixel, when the samples of its segment are known. -/
def countOf (r : FrameReader) (y : Nat) (samples : Option (Array Nat)) (x : Nat) : Nat :=
  match r.frame.resolve x y with
  | none => 0
  | some address => countAt samples address.offset

@[simp] theorem countOf_none : r.countOf y none x = 0 := by
  unfold countOf
  split <;> rfl

/-- A line has as many counts as the frame has columns. -/
theorem size_lineOf (samples : Option (Array Nat)) :
    (r.lineOf y samples).size = r.frame.columns := Array.size_ofFn

theorem getElem_lineOf {samples : Option (Array Nat)} (hx : x < (r.lineOf y samples).size) :
    (r.lineOf y samples)[x] = r.countOf y samples x := Array.getElem_ofFn hx

/-- Each count of a line is the one of its pixel. -/
theorem getD_lineOf (samples : Option (Array Nat)) (hx : x < r.frame.columns) :
    (r.lineOf y samples).getD x 0 = r.countOf y samples x := by
  have hplace : x < (r.lineOf y samples).size := (size_lineOf samples).symm ▸ hx
  rw [Array.getD_eq_getD_getElem?, Array.getElem?_eq_getElem hplace, Option.getD_some,
    getElem_lineOf]

/-- The counts of a line, as the source has them. -/
def lineCounts (r : FrameReader) (y : Nat) : Except Error (Array Nat) :=
  if r.frame.lines ≤ y then .error (.value (.lineRead y r.frame.lines r.frame.columns))
  else if r.frame.lineHasSamples y then
    (r.source.segment (r.frame.lineSegment y)).map (r.lineOf y)
  else .ok (r.lineOf y none)

/-- A line is read as it is in the source, whatever is kept. -/
theorem line_result (hcache : cache.Agrees r.source) (y : Nat) :
    (r.line y r.frame.columns cache).1 = r.lineCounts y := by
  unfold line lineCounts segment
  by_cases hy : r.frame.lines ≤ y
  · simp [hy]
  · have hsegment := SegmentCache.segment_result hcache (r.frame.lineSegment y)
    simp only [ne_eq, not_true_eq_false, hy, or_self, if_false]
    split
    · simp only [hsegment]
    · rfl

/-- Reading a line leaves a cache that agrees with the source, also if it fails. -/
theorem agrees_line (hcache : cache.Agrees r.source) (y length : Nat) :
    (r.line y length cache).2.Agrees r.source := by
  unfold line segment
  split
  · exact hcache
  · split
    · exact SegmentCache.agrees_segment hcache _
    · exact hcache

/-- A line that can be read is made of the samples of its segment, or of none if it has no strip. -/
theorem exists_samples_of_lineCounts (hline : r.lineCounts y = .ok counts) :
    ∃ samples, counts = r.lineOf y samples ∧
      (r.frame.lineHasSamples y = true →
        r.source.segment (r.frame.lineSegment y) = .ok samples) ∧
      (¬r.frame.lineHasSamples y = true → samples = none) := by
  unfold lineCounts at hline
  split at hline
  · cases hline
  split at hline
  · rename_i hstrip
    obtain ⟨samples, hsegment, rfl⟩ := Outcome.map_eq_ok_iff.mp hline
    exact ⟨samples, rfl, fun _ => hsegment, fun hnone => absurd hstrip hnone⟩
  · rename_i hstrip
    cases hline
    exact ⟨none, rfl, fun hgiven => absurd hgiven hstrip, fun _ => rfl⟩

/-- A line has a count for every column. -/
theorem size_of_lineCounts (hline : r.lineCounts y = .ok counts) :
    counts.size = r.frame.columns := by
  obtain ⟨samples, rfl, -⟩ := exists_samples_of_lineCounts hline
  exact size_lineOf samples

variable {β : Type} {convert : Nat → Except FormatError β}

/-- The converted count of a pixel. -/
def pixel (r : FrameReader) (convert : Nat → Except FormatError β) (x y : Nat) :
    Except Error β := do
  let counts ← r.lineCounts y
  (convert (counts.getD x 0)).mapError Error.format

/-- A pixel that has a value lies on a line that can be read. -/
theorem exists_line_of_pixel {x : Nat} {value : β} (hpixel : r.pixel convert x y = .ok value) :
    ∃ counts, r.lineCounts y = .ok counts ∧ convert (counts.getD x 0) = .ok value := by
  obtain ⟨counts, hline, hvalue⟩ := Outcome.bind_eq_ok_iff.mp hpixel
  exact ⟨counts, hline, Outcome.mapError_eq_ok_iff.mp hvalue⟩

/-- A row is converted to the values of its counts, one for each, if all of them have one. -/
theorem convertRow_eq_ok_iff {counts : List Nat} {done out : Array β} :
    convertRow convert counts done = .ok out ↔
      ∃ row : List β, List.Forall₂ (fun count value => convert count = .ok value) counts row ∧
        out = done ++ row.toArray := by
  induction counts generalizing done with
  | nil =>
      simp only [convertRow, List.foldlM_nil, List.forall₂_nil_left_iff, exists_eq_left]
      constructor
      · intro hout
        cases hout
        simp
      · intro hsame
        subst hsame
        simp [pure, Except.pure]
  | cons count counts ih =>
      have hstep : convertRow convert (count :: counts) done =
          ((convert count).mapError Error.format).map done.push >>= convertRow convert counts := rfl
      simp only [hstep, Outcome.bind_eq_ok_iff, Outcome.map_eq_ok_iff, Outcome.mapError_eq_ok_iff,
        ih]
      constructor
      · intro hgiven
        obtain ⟨-, ⟨value, hvalue, rfl⟩, row, hrow, rfl⟩ := hgiven
        exact ⟨value :: row, .cons hvalue hrow, by simp⟩
      · intro hgiven
        obtain ⟨row, hrow, rfl⟩ := hgiven
        cases hrow with
        | cons hvalue hrest => exact ⟨_, ⟨_, hvalue, rfl⟩, _, hrest, by simp⟩

/-- A pixel of a line that can be read has the value of its count. -/
theorem pixel_eq_ok_iff {counts : Array Nat} {x : Nat} {value : β}
    (hline : r.lineCounts y = .ok counts) :
    r.pixel convert x y = .ok value ↔ convert (counts.getD x 0) = .ok value := by
  constructor
  · intro hpixel
    obtain ⟨same, hsame, hvalue⟩ := exists_line_of_pixel hpixel
    rw [hline] at hsame
    cases hsame
    exact hvalue
  · intro hvalue
    simp only [pixel, hline, hvalue, Outcome.ok_bind, Outcome.ok_mapError]

variable {area : PixelArea}

/-- The row of an area that a line holds is converted to the values of its pixels. -/
theorem convertRow_line_eq_ok_iff {counts : Array Nat} {done out : Array β}
    (hline : r.lineCounts y = .ok counts) (hinside : area.x + area.width ≤ r.frame.columns) :
    convertRow convert (counts.extract area.x (area.x + area.width)).toList done = .ok out ↔
      ∃ row : List β, row.length = area.width ∧
        (∀ i (hi : i < row.length), r.pixel convert (area.x + i) y = .ok row[i]) ∧
          out = done ++ row.toArray := by
  have hsize := size_of_lineCounts hline
  have hlength : (counts.extract area.x (area.x + area.width)).toList.length = area.width := by
    rw [Array.length_toList, Array.size_extract]
    omega
  have hcount : ∀ i (hi : i < (counts.extract area.x (area.x + area.width)).toList.length),
      (counts.extract area.x (area.x + area.width)).toList[i] = counts.getD (area.x + i) 0 := by
    intro i hi
    rw [Array.getElem_toList, Array.getElem_extract, Array.getD_eq_getD_getElem?,
      Array.getElem?_eq_getElem, Option.getD_some]
  rw [convertRow_eq_ok_iff]
  constructor
  · intro hgiven
    obtain ⟨row, hrow, hout⟩ := hgiven
    obtain ⟨hsame, hvalues⟩ := List.forall₂_iff_get.mp hrow
    refine ⟨row, by rw [← hsame, hlength], ?_, hout⟩
    intro i hi
    have hvalue := hvalues i (hsame ▸ hi) hi
    rw [List.get_eq_getElem, List.get_eq_getElem, hcount] at hvalue
    exact (pixel_eq_ok_iff hline).mpr hvalue
  · intro hgiven
    obtain ⟨row, hwidth, hvalues, hout⟩ := hgiven
    refine ⟨row, List.forall₂_iff_get.mpr ⟨by rw [hlength, hwidth], ?_⟩, hout⟩
    intro i hi hirow
    rw [List.get_eq_getElem, List.get_eq_getElem, hcount]
    exact (pixel_eq_ok_iff hline).mp (hvalues i hirow)

/-- One row of an area: the line that holds it is read, and its row converted. -/
theorem readRows_succ {rows : Nat} {done : Array β} (hcache : cache.Agrees r.source) :
    (r.readRows area false convert (rows + 1) y done cache).1 =
      (do
        let counts ← r.lineCounts y
        let more ← convertRow convert (counts.extract area.x (area.x + area.width)).toList done
        (r.readRows area false convert rows (y + 1) more (r.line y r.frame.columns cache).2).1) := by
  rw [← line_result hcache, readRows, if_neg (by simp)]
  generalize r.line y r.frame.columns cache = reading
  obtain ⟨line, next⟩ := reading
  cases line with
  | error e => rfl
  | ok counts =>
      simp only [Except.bind, Outcome.ok_bind]
      cases convertRow convert (counts.extract area.x (area.x + area.width)).toList done <;> rfl

/-- What was read of an area are the values of its pixels. -/
theorem pixels_of_readRows {rows : Nat} {done out : Array β} (hcache : cache.Agrees r.source)
    (hinside : area.x + area.width ≤ r.frame.columns)
    (hread : (r.readRows area false convert rows y done cache).1 = .ok out) :
    ∃ pixels : List β, pixels.length = rows * area.width ∧ out = done ++ pixels.toArray ∧
      ∀ i (hi : i < pixels.length),
        r.pixel convert (area.x + i % area.width) (y + i / area.width) = .ok pixels[i] := by
  induction rows generalizing y done cache with
  | zero =>
      cases hread
      exact ⟨[], by simp, by simp, by simp⟩
  | succ rows ih =>
      simp only [readRows_succ hcache, Outcome.bind_eq_ok_iff] at hread
      obtain ⟨counts, hline, more, hrow, hread⟩ := hread
      obtain ⟨row, hwidth, hrowPixels, hmore⟩ := (convertRow_line_eq_ok_iff hline hinside).mp hrow
      obtain ⟨others, hlength, hout, hothers⟩ := ih (agrees_line hcache y _) hread
      refine ⟨row ++ others, ?_, ?_, ?_⟩
      · rw [List.length_append, hwidth, hlength, Nat.succ_mul, Nat.add_comm]
      · rw [hout, hmore, ← List.append_toArray, Array.append_assoc]
      · intro i hi
        by_cases hfirst : i < row.length
        · rw [List.getElem_append_left hfirst, Nat.mod_eq_of_lt (hwidth ▸ hfirst),
            Nat.div_eq_of_lt (hwidth ▸ hfirst)]
          exact hrowPixels i hfirst
        · obtain ⟨k, rfl⟩ : ∃ k, i = k + area.width := ⟨i - area.width, by omega⟩
          have hpositive : 0 < area.width := by
            rw [List.length_append, hlength] at hi
            rcases Nat.eq_zero_or_pos area.width with hzero | hpositive
            · rw [hzero] at hi; omega
            · exact hpositive
          have hk : k < others.length := by rw [List.length_append] at hi; omega
          have hpixel := hothers k hk
          rw [Nat.add_mod_right, Nat.add_div_right _ hpositive,
            List.getElem_append_right (by omega)]
          simp only [hwidth, Nat.add_sub_cancel]
          rwa [Nat.add_comm _ 1, ← Nat.add_assoc]

/-- An area of which every pixel has a value can be read. -/
theorem readRows_of_pixels {rows : Nat} {done : Array β} (hcache : cache.Agrees r.source)
    (hinside : area.x + area.width ≤ r.frame.columns) (hwidth : 0 < area.width) (pixels : List β)
    (hlength : pixels.length = rows * area.width)
    (hpixels : ∀ i (hi : i < pixels.length),
      r.pixel convert (area.x + i % area.width) (y + i / area.width) = .ok pixels[i]) :
    (r.readRows area false convert rows y done cache).1 = .ok (done ++ pixels.toArray) := by
  induction rows generalizing y done cache pixels with
  | zero =>
      have hnil : pixels = [] := List.eq_nil_of_length_eq_zero (by rw [hlength, Nat.zero_mul])
      simp [hnil, readRows]
  | succ rows ih =>
      rw [Nat.succ_mul] at hlength
      have hfirst : 0 < pixels.length := by omega
      obtain ⟨counts, hline, -⟩ := exists_line_of_pixel (hpixels 0 hfirst)
      rw [Nat.zero_div, Nat.add_zero] at hline
      have hrow : convertRow convert (counts.extract area.x (area.x + area.width)).toList done =
          .ok (done ++ (pixels.take area.width).toArray) := by
        rw [convertRow_line_eq_ok_iff hline hinside]
        refine ⟨pixels.take area.width, by rw [List.length_take]; omega, ?_, rfl⟩
        intro i hi
        rw [List.length_take] at hi
        have hpixel := hpixels i (by omega)
        rw [Nat.mod_eq_of_lt (by omega), Nat.div_eq_of_lt (by omega), Nat.add_zero] at hpixel
        rwa [List.getElem_take]
      have hdropped : (pixels.drop area.width).length = rows * area.width := by
        rw [List.length_drop, hlength, Nat.add_sub_cancel]
      have hothers : (r.readRows area false convert rows (y + 1)
          (done ++ (pixels.take area.width).toArray) (r.line y r.frame.columns cache).2).1 =
            .ok (done ++ (pixels.take area.width).toArray ++ (pixels.drop area.width).toArray) := by
        refine ih (agrees_line hcache y r.frame.columns) _ hdropped ?_
        intro i hi
        have hpixel := hpixels (i + area.width) (by omega)
        rw [Nat.add_mod_right, Nat.add_div_right _ hwidth] at hpixel
        rw [List.getElem_drop, Nat.add_assoc, Nat.add_comm 1]
        simpa only [Nat.add_comm area.width i] using hpixel
      have hsplit : (pixels.take area.width).toArray ++ (pixels.drop area.width).toArray =
          pixels.toArray := by
        rw [List.append_toArray, List.take_append_drop]
      rw [readRows_succ hcache, hline]
      simp only [Outcome.ok_bind, hrow, hothers]
      rw [Array.append_assoc, hsplit]

/-- Only an area without lines can be read after a cancellation. -/
theorem not_cancelled_of_readRows {rows : Nat} {cancelled : Bool} {done out : Array β}
    (hrows : rows ≠ 0) (hread : (r.readRows area cancelled convert rows y done cache).1 = .ok out) :
    cancelled = false := by
  cases cancelled with
  | false => rfl
  | true =>
      cases rows with
      | zero => exact absurd rfl hrows
      | succ rows => cases hread

/-- An area that was read has a value for each of its pixels. -/
theorem size_of_readRows {lines : Nat} {cancelled : Bool} {values : Array β}
    (hcache : cache.Agrees r.source) (harea : area.isWithin r.frame.columns lines)
    (hread : (r.readRows area cancelled convert area.height area.y #[] cache).1 = .ok values) :
    values.size = area.width * area.height := by
  simp only [PixelArea.isWithin, Bool.and_eq_true, bne_iff_ne, decide_eq_true_eq] at harea
  cases not_cancelled_of_readRows harea.1.1.2 hread
  obtain ⟨pixels, hlength, hvalues, -⟩ := pixels_of_readRows hcache harea.1.2 hread
  rw [hvalues, Array.empty_append, List.size_toArray, hlength, Nat.mul_comm]

/-- What was read of a whole frame are the values of its pixels, line by line. -/
theorem pixels_of_readFrame {lines : Nat} {whole : Array β} (hcache : cache.Agrees r.source)
    (hread : (r.readRows ⟨0, 0, r.frame.columns, lines⟩ false convert lines 0 #[] cache).1 =
      .ok whole) (fallback : β) :
    whole.size = lines * r.frame.columns ∧ ∀ x y, x < r.frame.columns → y < lines →
      r.pixel convert x y = .ok (whole.getD (y * r.frame.columns + x) fallback) := by
  obtain ⟨pixels, hlength, hout, hpixels⟩ := pixels_of_readRows hcache (by simp) hread
  rw [Array.empty_append] at hout
  refine ⟨by rw [hout, List.size_toArray, hlength], ?_⟩
  intro x y hx hy
  obtain ⟨hindex, hmod, hdiv⟩ := PixelData.place_spec hx hy
  rw [← hlength] at hindex
  have hpixel := hpixels _ hindex
  rw [hmod, hdiv, Nat.zero_add, Nat.zero_add] at hpixel
  rw [hpixel, hout, Array.getD_eq_getD_getElem?, List.getElem?_toArray,
    List.getElem?_eq_getElem hindex, Option.getD_some]

/-- An area in which every pixel has a value can be read, and holds these values line by line. -/
theorem readRows_ofFn (hcache : cache.Agrees r.source) {lines : Nat}
    (harea : area.isWithin r.frame.columns lines) {value : Nat → Nat → β}
    (hpixel : ∀ x y, x < r.frame.columns → y < lines → r.pixel convert x y = .ok (value x y)) :
    (r.readRows area false convert area.height area.y #[] cache).1 =
      .ok (Array.ofFn (n := area.width * area.height) fun i =>
        value (area.x + i % area.width) (area.y + i / area.width)) := by
  simp only [PixelArea.isWithin, Bool.and_eq_true, bne_iff_ne, decide_eq_true_eq] at harea
  obtain ⟨⟨⟨hwidth, -⟩, hright⟩, hbottom⟩ := harea
  have hpositive := Nat.pos_of_ne_zero hwidth
  rw [readRows_of_pixels hcache hright hpositive
    (List.ofFn (n := area.width * area.height) fun i =>
      value (area.x + i % area.width) (area.y + i / area.width))
    (by rw [List.length_ofFn, Nat.mul_comm]), Array.empty_append, List.toArray_ofFn]
  intro i hi
  rw [List.length_ofFn] at hi
  have hcolumn := Nat.mod_lt i hpositive
  have hline := Nat.div_lt_of_lt_mul hi
  rw [List.getElem_ofFn]
  exact hpixel _ _ (by omega) (by omega)

/-- Wherever a frame could be read, each of its areas can be read, and holds what the frame holds
there. -/
theorem readRows_of_readFrame {lines : Nat} {whole : Array β} {other : SegmentCache}
    (hcache : cache.Agrees r.source) (hother : other.Agrees r.source)
    (hread : (r.readRows ⟨0, 0, r.frame.columns, lines⟩ false convert lines 0 #[] cache).1 =
      .ok whole) (harea : area.isWithin r.frame.columns lines) (fallback : β) :
    (r.readRows area false convert area.height area.y #[] other).1 =
      .ok (Array.ofFn (n := area.width * area.height) fun i =>
        whole.getD ((area.y + i / area.width) * r.frame.columns + (area.x + i % area.width))
          fallback) :=
  readRows_ofFn hother harea (pixels_of_readFrame hcache hread fallback).2

variable {cancelled : Bool} {blank : β}

/-- The cells of an area that fits are the rows that are read of it. -/
theorem readCells_of_fits (hfits : area.Fits) :
    r.readCells area cancelled convert blank cache =
      r.readRows area cancelled convert area.height area.y #[] cache := by
  unfold readCells
  rw [PixelArea.spanLines_eq hfits, if_pos hfits]
  split
  · rename_i hnone
    rw [hnone, readRows]
    simp [Size.mul]
  · rfl

/-- Nothing is read of an area without lines. -/
theorem readCells_of_no_lines (hnone : area.spanLines = 0) :
    r.readCells area cancelled convert blank cache =
      (.ok (Array.replicate (Size.mul area.width area.height) blank), cache) := if_pos hnone

/-- An area that does not fit, but has lines, gives no cells. -/
theorem readCells_of_reversed (hlines : area.spanLines ≠ 0) (hround : ¬area.Fits) :
    r.readCells area cancelled convert blank cache =
      ((r.readRows ⟨0, area.y, 0, 1⟩ cancelled convert 1 area.y #[] cache).1.bind fun _ =>
          .error (.value (.reversedRow area.x area.right)),
        (r.readRows ⟨0, area.y, 0, 1⟩ cancelled convert 1 area.y #[] cache).2) := by
  unfold readCells
  rw [if_neg hlines, if_neg hround]

/-- **The cells of an area** are the rows that are read of it, or all of them blank because nothing is
read of it. -/
theorem readCells_cases {cells : Array β}
    (hread : (r.readCells area cancelled convert blank cache).1 = .ok cells) :
    (area.Fits ∧
        (r.readRows area cancelled convert area.height area.y #[] cache).1 = .ok cells) ∨
      area.spanLines = 0 ∧ cells = Array.replicate (Size.mul area.width area.height) blank := by
  by_cases hfits : area.Fits
  · rw [readCells_of_fits hfits] at hread
    exact .inl ⟨hfits, hread⟩
  by_cases hnone : area.spanLines = 0
  · rw [readCells_of_no_lines hnone] at hread
    exact .inr ⟨hnone, (Except.ok.inj hread).symm⟩
  · rw [readCells_of_reversed hnone hfits] at hread
    obtain ⟨_, -, hreversed⟩ := Outcome.bind_eq_ok_iff.mp hread
    cases hreversed

end FrameReader

end SeviriImagery
