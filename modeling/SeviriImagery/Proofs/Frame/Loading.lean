import SeviriImagery.Proofs.Frame.Addressing
import SeviriImagery.Proofs.Frame.Reading

/-!
# Which segments are loaded

An area is read from north to south, and each of its lines asks for the segment that holds it.  The
stored lines of a frame run in one direction, so the lines of one segment follow each other
(`Frame.lineSegment_between`), and a segment that was left is not asked for again.  This is why a
cache for one segment is enough: the segments of which a load is tried are those that hold a line of
the area and are there, each of them once.

`FrameReader.HasRead` is what is known of a cache after some lines were read without a failure.
`HasRead.segment` takes it over one line more, and `readRows_loaded` and `readRows_failed` over all
lines of an area, up to the end or up to the first line whose segment cannot be loaded.
-/

namespace SeviriImagery

namespace Frame

variable {f : Frame} {y k : Nat}

/-- A segment holds a line if a pixel of the line has its sample there. -/
def HoldsLine (f : Frame) (k y : Nat) : Prop := ∃ x a, f.resolve x y = some a ∧ a.segment = k

/-- On every line of a frame there is a strip, so that a segment holds it. -/
theorem holdsLine_iff (hfits : f.Fits) (hcovered : f.IsCovered)
    (hcolumns : 0 < f.segmentColumns) (hy : y < f.lines) : f.HoldsLine k y ↔ f.lineSegment y = k := by
  constructor
  · intro hholds
    obtain ⟨x, a, hresolve, hsegment⟩ := hholds
    obtain ⟨-, rfl⟩ := (resolve_eq_some_iff hfits).mp hresolve
    exact hsegment
  · intro hsegment
    have hsome : (f.resolve (f.lineStart y) y).isSome :=
      (isSome_resolve_iff hcovered hy).mpr ⟨Nat.le_refl _, Nat.lt_add_of_pos_right hcolumns⟩
    obtain ⟨a, hresolve⟩ := Option.isSome_iff_exists.mp hsome
    refine ⟨_, a, hresolve, ?_⟩
    obtain ⟨-, rfl⟩ := (resolve_eq_some_iff hfits).mp hresolve
    exact hsegment

theorem lineHasSamples_of_isCovered (hcovered : f.IsCovered) (hcolumns : 0 < f.segmentColumns)
    (hy : y < f.lines) : f.lineHasSamples y = true := by
  have hstrip := lineStart_add_le hcovered y
  simp only [lineHasSamples, Bool.and_eq_true, decide_eq_true_eq]
  omega

/-- The lines of a segment follow each other. -/
theorem lineSegment_between {a b c : Nat} (hab : a ≤ b) (hbc : b ≤ c) (hc : c < f.lines)
    (hends : f.lineSegment a = f.lineSegment c) : f.lineSegment b = f.lineSegment c := by
  have ha := storedLine_eq (show a < f.lines by omega)
  have hb := storedLine_eq (show b < f.lines by omega)
  have hstored := storedLine_eq hc
  unfold lineSegment at hends ⊢
  by_cases hsouth : f.fromSouth
  · simp only [hsouth, if_true] at ha hb hstored
    have hnear : f.storedLine c ≤ f.storedLine b := by omega
    have hfar : f.storedLine b ≤ f.storedLine a := by omega
    exact Nat.le_antisymm (hends ▸ Nat.div_le_div_right hfar) (Nat.div_le_div_right hnear)
  · have hnear : f.storedLine b ≤ f.storedLine c := by simp [storedLine, hsouth, hbc]
    have hfar : f.storedLine a ≤ f.storedLine b := by simp [storedLine, hsouth, hab]
    exact Nat.le_antisymm (Nat.div_le_div_right hnear) (hends ▸ Nat.div_le_div_right hfar)

end Frame

namespace SegmentSource

variable {source : SegmentSource} {k : Nat}

/-- A source fails at a segment that is there and cannot be loaded. -/
theorem segment_eq_error_iff {e : Error} :
    source.segment k = .error e ↔ source.offers k ∧ source.load k = .error e := by
  unfold segment
  by_cases hoffers : source.offers k
  · rw [if_pos hoffers]
    cases source.load k <;> simp [hoffers]
  · simp [hoffers]

/-- A source has samples for a segment that is there and can be loaded. -/
theorem segment_eq_some_iff {samples : Array Nat} :
    source.segment k = .ok (some samples) ↔ source.offers k ∧ source.load k = .ok samples := by
  unfold segment
  by_cases hoffers : source.offers k
  · rw [if_pos hoffers]
    cases source.load k <;> simp [hoffers]
  · simp [hoffers]

/-- It has nothing for one that is not there. -/
theorem segment_eq_none_iff : source.segment k = .ok none ↔ source.offers k = false := by
  unfold segment
  cases source.offers k with
  | false => exact iff_of_true rfl rfl
  | true => cases source.load k <;> simp

/-- A source has an answer for a segment if that can be loaded or is not there. -/
theorem exists_segment_iff :
    (∃ samples, source.segment k = .ok samples) ↔
      (source.offers k → ∃ samples, source.load k = .ok samples) := by
  unfold segment
  by_cases hoffers : source.offers k
  · rw [if_pos hoffers]
    cases source.load k <;> simp [hoffers]
  · simp [hoffers]

end SegmentSource

namespace SegmentCache

variable {source : SegmentSource} {cache : SegmentCache} {k : Nat}

/-- A segment that is not there leaves the cache as it is. -/
theorem segment_absent (habsent : ¬source.offers k) (cache : SegmentCache) :
    segment source k cache = (.ok none, cache) := by
  rw [segment, if_neg habsent]

/-- The segment that is held is not loaded again. -/
theorem segment_held (hoffers : source.offers k) (hheld : cache.held.index? = some k) :
    ∃ samples, segment source k cache = (.ok (some samples), cache) := by
  rw [segment, if_pos hoffers]
  unfold fetch
  cases hcase : cache.held with
  | empty => rw [hcase] at hheld; cases hheld
  | holding index samples =>
      rw [hcase] at hheld
      cases hheld
      exact ⟨samples, by simp⟩

/-- Any other segment is loaded in place of the one that is held. -/
theorem segment_other (hoffers : source.offers k) (hother : cache.held.index? ≠ some k) :
    segment source k cache =
      ((reload source k cache).1.map some, (reload source k cache).2) := by
  have hfetch : fetch source k cache = reload source k cache := by
    unfold fetch
    cases hcase : cache.held with
    | empty => rfl
    | holding index samples =>
        rw [hcase] at hother
        simp only
        rw [if_neg fun hsame => hother (congrArg some hsame)]
  rw [segment, if_pos hoffers, hfetch]

/-- If it can be loaded, it is held from then on. -/
theorem segment_loaded (hoffers : source.offers k) (hother : cache.held.index? ≠ some k)
    {samples : Array Nat} (hload : source.load k = .ok samples) :
    segment source k cache =
      (.ok (some samples), ⟨.holding k samples, k :: cache.tried, cache.loads + 1⟩) := by
  rw [segment_other hoffers hother, reload, hload]
  rfl

/-- If it cannot, nothing is. -/
theorem segment_failed (hoffers : source.offers k) (hother : cache.held.index? ≠ some k)
    {e : Error} (hload : source.load k = .error e) :
    segment source k cache = (.error e, ⟨.empty, k :: cache.tried, cache.loads⟩) := by
  rw [segment_other hoffers hother, reload, hload]
  rfl

/-- A segment that cannot be loaded is not held. -/
theorem Agrees.held_ne (hagrees : cache.Agrees source) {e : Error} (hload : source.load k = .error e) :
    cache.held.index? ≠ some k := by
  intro hheld
  cases hcase : cache.held with
  | empty => rw [hcase] at hheld; cases hheld
  | holding index samples =>
      rw [hcase] at hheld
      cases hheld
      rw [hagrees _ _ hcase] at hload
      cases hload

/-- A cache depends on its source only in the segment that it is asked for. -/
theorem segment_congr {other : SegmentSource} (hoffers : other.offers k = source.offers k)
    (hload : other.load k = source.load k) (cache : SegmentCache) :
    segment other k cache = segment source k cache := by
  have hreload : reload other k cache = reload source k cache := by rw [reload, hload, ← reload]
  unfold segment fetch
  simp only [hoffers, hreload]

end SegmentCache

namespace FrameReader

variable {r : FrameReader} {cache : SegmentCache} {first y : Nat}

/-- What a cache has gone through when the lines from `first` up to `y` were read: each segment that
holds one of them and is there was loaded once, and the one of the last line is held if it is
there. -/
structure HasRead (r : FrameReader) (first y : Nat) (cache : SegmentCache) : Prop where
  agrees : cache.Agrees r.source
  nodup : cache.tried.Nodup
  mem_tried : ∀ k, k ∈ cache.tried ↔
    r.source.offers k ∧ ∃ line, first ≤ line ∧ line < y ∧ r.frame.lineSegment line = k
  loads : cache.loads = cache.tried.length
  tried_of_held : ∀ k, cache.held.index? = some k → k ∈ cache.tried
  held : ∀ line, first ≤ line → line + 1 = y → r.source.offers (r.frame.lineSegment line) →
    cache.held.index? = some (r.frame.lineSegment line)

theorem hasRead_fresh (r : FrameReader) (first : Nat) : r.HasRead first first .fresh where
  agrees := SegmentCache.agrees_fresh r.source
  nodup := List.nodup_nil
  mem_tried := fun k => by
    simp only [SegmentCache.fresh, List.not_mem_nil, false_iff, not_and, not_exists]
    omega
  loads := rfl
  tried_of_held := fun k hheld => by cases hheld
  held := fun line hfirst hlast => by omega

namespace HasRead

/-- Whatever more was done before, a line more was read if its segment is among those tried and is
held, or is not there. -/
theorem succ {next : SegmentCache} (hread : r.HasRead first y cache) (hfirst : first ≤ y)
    (hagrees : next.Agrees r.source) (hnodup : next.tried.Nodup)
    (hmem : ∀ k, k ∈ next.tried ↔
      k ∈ cache.tried ∨ r.source.offers k ∧ k = r.frame.lineSegment y)
    (hloads : next.loads = next.tried.length)
    (htried : ∀ k, next.held.index? = some k → k ∈ next.tried)
    (hheld : r.source.offers (r.frame.lineSegment y) →
      next.held.index? = some (r.frame.lineSegment y)) : r.HasRead first (y + 1) next where
  agrees := hagrees
  nodup := hnodup
  mem_tried := fun k => by
    rw [hmem, hread.mem_tried]
    constructor
    · intro hgiven
      rcases hgiven with ⟨hoffers, line, hle, hlt, hline⟩ | ⟨hoffers, rfl⟩
      · exact ⟨hoffers, line, hle, Nat.lt_succ_of_lt hlt, hline⟩
      · exact ⟨hoffers, y, hfirst, Nat.lt_succ_self y, rfl⟩
    · intro hgiven
      obtain ⟨hoffers, line, hle, hlt, hline⟩ := hgiven
      rcases Nat.lt_succ_iff_lt_or_eq.mp hlt with hlt | rfl
      · exact .inl ⟨hoffers, line, hle, hlt, hline⟩
      · exact .inr ⟨hoffers, hline.symm⟩
  loads := hloads
  tried_of_held := htried
  held := fun line _ hlast => by
    cases Nat.succ.inj hlast
    exact hheld

/-- A segment that was loaded before is still held when its next line is read. -/
theorem held_of_tried (hread : r.HasRead first y cache) (hy : y < r.frame.lines)
    (htried : r.frame.lineSegment y ∈ cache.tried) :
    cache.held.index? = some (r.frame.lineSegment y) := by
  obtain ⟨hoffers, line, hfirst, hline, hsame⟩ := (hread.mem_tried _).mp htried
  have hlast : r.frame.lineSegment (y - 1) = r.frame.lineSegment y :=
    Frame.lineSegment_between (by omega) (by omega) hy hsame
  rw [← hlast] at hoffers ⊢
  exact hread.held (y - 1) (by omega) (by omega) hoffers

/-- A line is read whose segment is there and can be loaded, or is not there. -/
theorem segment (hread : r.HasRead first y cache) (hfirst : first ≤ y) (hy : y < r.frame.lines)
    {samples : Option (Array Nat)}
    (hsegment : r.source.segment (r.frame.lineSegment y) = .ok samples) :
    r.HasRead first (y + 1) (r.segment (r.frame.lineSegment y) cache).2 := by
  have hagrees := SegmentCache.agrees_segment hread.agrees (r.frame.lineSegment y)
  unfold FrameReader.segment
  by_cases hoffers : r.source.offers (r.frame.lineSegment y)
  · by_cases hheld : cache.held.index? = some (r.frame.lineSegment y)
    · obtain ⟨stored, hsame⟩ := SegmentCache.segment_held hoffers hheld
      have htried := hread.tried_of_held _ hheld
      rw [hsame] at hagrees ⊢
      refine hread.succ hfirst hagrees hread.nodup (fun k => ?_) hread.loads hread.tried_of_held
        fun _ => hheld
      constructor
      · exact .inl
      · rintro (hk | ⟨-, rfl⟩)
        · exact hk
        · exact htried
    · obtain ⟨loaded, hload⟩ := SegmentSource.exists_segment_iff.mp ⟨samples, hsegment⟩ hoffers
      rw [SegmentCache.segment_loaded hoffers hheld hload] at hagrees ⊢
      refine hread.succ hfirst hagrees
        (List.nodup_cons.mpr ⟨fun htried => hheld (hread.held_of_tried hy htried), hread.nodup⟩)
        (fun k => ?_) (congrArg (· + 1) hread.loads) (fun k hk => ?_) fun _ => rfl
      · simp only [List.mem_cons]
        constructor
        · rintro (rfl | hk)
          · exact .inr ⟨hoffers, rfl⟩
          · exact .inl hk
        · rintro (hk | ⟨-, rfl⟩)
          · exact .inr hk
          · exact .inl rfl
      · cases hk
        exact List.mem_cons_self
  · rw [SegmentCache.segment_absent hoffers] at hagrees ⊢
    refine hread.succ hfirst hagrees hread.nodup (fun k => ?_) hread.loads hread.tried_of_held
      fun hgiven => absurd hgiven hoffers
    constructor
    · exact .inl
    · rintro (hk | ⟨hgiven, rfl⟩)
      · exact hk
      · exact absurd hgiven hoffers

/-- A segment that cannot be loaded is tried once, and was not tried before. -/
theorem segment_failed (hread : r.HasRead first y cache) (hy : y < r.frame.lines) {e : Error}
    (hsegment : r.source.segment (r.frame.lineSegment y) = .error e) :
    r.frame.lineSegment y ∉ cache.tried ∧
      (r.segment (r.frame.lineSegment y) cache).2.tried = r.frame.lineSegment y :: cache.tried := by
  obtain ⟨hoffers, hload⟩ := SegmentSource.segment_eq_error_iff.mp hsegment
  have hother := hread.agrees.held_ne hload
  refine ⟨fun htried => hother (hread.held_of_tried hy htried), ?_⟩
  rw [FrameReader.segment, SegmentCache.segment_failed hoffers hother hload]

end HasRead

/-- A line of the frame asks for the segment that holds it. -/
theorem line_eq (hcovered : r.frame.IsCovered) (hcolumns : 0 < r.frame.segmentColumns)
    (hy : y < r.frame.lines) (cache : SegmentCache) :
    r.line y r.frame.columns cache =
      (((r.segment (r.frame.lineSegment y) cache).1).map (r.lineOf y),
        (r.segment (r.frame.lineSegment y) cache).2) := by
  rw [line, if_neg (by simp; omega),
    if_pos (Frame.lineHasSamples_of_isCovered hcovered hcolumns hy)]

/-- The count of a pixel is a sample of its segment, or 0. -/
theorem countOf_some {stored : Array Nat} (x : Nat) :
    r.countOf y (some stored) x = 0 ∨ r.countOf y (some stored) x ∈ stored := by
  unfold countOf
  split
  · exact .inl rfl
  · rename_i address _
    by_cases hoffset : address.offset < stored.size
    · refine .inr ?_
      simp [countAt, Array.getD_eq_getD_getElem?, hoffset]
    · refine .inl ?_
      simp [countAt, Array.getD_eq_getD_getElem?, hoffset]

/-- The counts of a line are samples of the source, or 0 where there is no data. -/
theorem mem_source_of_mem_lineCounts {counts : Array Nat} {count : Nat}
    (hline : r.lineCounts y = .ok counts) (hcount : count ∈ counts) :
    count = 0 ∨
      ∃ k samples, r.source.offers k ∧ r.source.load k = .ok samples ∧ count ∈ samples := by
  obtain ⟨samples, rfl, hsegment, hnone⟩ := exists_samples_of_lineCounts hline
  obtain ⟨x, hx, rfl⟩ := Array.mem_iff_getElem.mp hcount
  rw [getElem_lineOf]
  cases samples with
  | none => exact .inl countOf_none
  | some stored =>
      have hstrip : r.frame.lineHasSamples y = true := by
        by_contra hbeside
        cases hnone hbeside
      obtain ⟨hoffers, hload⟩ := SegmentSource.segment_eq_some_iff.mp (hsegment hstrip)
      rcases countOf_some x with hzero | hmem
      · exact .inl hzero
      · exact .inr ⟨_, stored, hoffers, hload, hmem⟩

variable {β : Type} {convert : Nat → Except FormatError β} {area : PixelArea}

/-- The counts of a row are counts of its line. -/
theorem mem_line_of_mem_row {counts : Array Nat} {c first last : Nat}
    (hc : c ∈ (counts.extract first last).toList) : c ∈ counts := by
  rw [Array.toList_extract] at hc
  exact Array.mem_toList_iff.mp (List.mem_of_mem_drop (List.mem_of_mem_take hc))

/-- A row is converted if each of its counts is. -/
theorem exists_convertRow {counts : List Nat} (hall : ∀ c ∈ counts, ∃ value, convert c = .ok value)
    (done : Array β) : ∃ out, convertRow convert counts done = .ok out := by
  induction counts generalizing done with
  | nil => exact ⟨done, rfl⟩
  | cons c counts ih =>
      obtain ⟨value, hvalue⟩ := hall c List.mem_cons_self
      obtain ⟨out, hout⟩ := ih (fun d hd => hall d (List.mem_cons_of_mem c hd)) (done.push value)
      refine ⟨out, ?_⟩
      show (((convert c).mapError Error.format).map done.push >>= convertRow convert counts) = _
      rw [hvalue]
      exact hout

/-- A line that is read and converted is followed by the next one. -/
theorem readRows_of_line {rows : Nat} {done more : Array β} {counts : Array Nat}
    {next : SegmentCache} (hline : r.line y r.frame.columns cache = (.ok counts, next))
    (hrow : convertRow convert (counts.extract area.x (area.x + area.width)).toList done =
      .ok more) :
    r.readRows area false convert (rows + 1) y done cache =
      r.readRows area false convert rows (y + 1) more next := by
  rw [readRows, if_neg (by simp), hline]
  simp only [Except.bind, hrow]

/-- A line that cannot be read ends the reading. -/
theorem readRows_of_line_error {rows : Nat} {done : Array β} {e : Error} {next : SegmentCache}
    (hline : r.line y r.frame.columns cache = (.error e, next)) :
    r.readRows area false convert (rows + 1) y done cache = (.error e, next) := by
  rw [readRows, if_neg (by simp), hline]
  rfl

section Run

variable (area : PixelArea) (hcovered : r.frame.IsCovered) (hcolumns : 0 < r.frame.segmentColumns)
  (hconvert : ∀ line counts, r.lineCounts line = .ok counts →
    ∀ c ∈ counts, ∃ value, convert c = .ok value)

include hcovered hcolumns hconvert

/-- One line whose segment is there and can be loaded, or is not there, is read and converted. -/
theorem readRows_step (hread : r.HasRead first y cache) (hfirst : first ≤ y)
    (hy : y < r.frame.lines) {samples : Option (Array Nat)}
    (hsegment : r.source.segment (r.frame.lineSegment y) = .ok samples) (done : Array β) :
    ∃ more next, r.HasRead first (y + 1) next ∧ ∀ rows,
      r.readRows area false convert (rows + 1) y done cache =
        r.readRows area false convert rows (y + 1) more next := by
  have hresult : (r.segment (r.frame.lineSegment y) cache).1 = .ok samples := by
    rw [← hsegment]
    exact SegmentCache.segment_result hread.agrees _
  have hline := line_eq hcovered hcolumns hy cache
  rw [hresult, Outcome.ok_map] at hline
  have hcounts : r.lineCounts y = .ok (r.lineOf y samples) := by
    rw [← line_result hread.agrees, hline]
  have hvalues : ∀ c ∈ ((r.lineOf y samples).extract area.x (area.x + area.width)).toList,
      ∃ value, convert c = .ok value :=
    fun c hc => hconvert y _ hcounts c (mem_line_of_mem_row hc)
  obtain ⟨more, hmore⟩ := exists_convertRow hvalues done
  exact ⟨more, _, hread.segment hfirst hy hsegment, fun rows => readRows_of_line hline hmore⟩

/-- All lines of an area are read, if each of their segments is there and can be loaded, or is not
there. -/
theorem readRows_loaded {rows : Nat} (hread : r.HasRead first y cache) (hfirst : first ≤ y)
    (hin : y + rows ≤ r.frame.lines)
    (hloads : ∀ line, y ≤ line → line < y + rows →
      ∃ samples, r.source.segment (r.frame.lineSegment line) = .ok samples) (done : Array β) :
    ∃ out next, r.readRows area false convert rows y done cache = (.ok out, next) ∧
      r.HasRead first (y + rows) next := by
  induction rows generalizing y done cache with
  | zero => exact ⟨done, cache, rfl, hread⟩
  | succ rows ih =>
      obtain ⟨samples, hsegment⟩ := hloads y (Nat.le_refl y) (by omega)
      obtain ⟨more, next, hnext, hstep⟩ :=
        readRows_step area hcovered hcolumns hconvert hread hfirst (by omega) hsegment done
      obtain ⟨out, last, hrest, hlast⟩ := ih hnext (by omega) (by omega)
        (fun line hle hlt => hloads line (by omega) (by omega)) more
      refine ⟨out, last, (hstep rows).trans hrest, ?_⟩
      rwa [Nat.add_right_comm, Nat.add_assoc] at hlast

/-- The lines of an area are read up to the first one whose segment cannot be loaded. -/
theorem readRows_failed {rows line : Nat} {e : Error} (hread : r.HasRead first y cache)
    (hfirst : first ≤ y) (hin : y + rows ≤ r.frame.lines) (hle : y ≤ line) (hlt : line < y + rows)
    (hbefore : ∀ above, y ≤ above → above < line →
      ∃ samples, r.source.segment (r.frame.lineSegment above) = .ok samples)
    (hfails : r.source.segment (r.frame.lineSegment line) = .error e) (done : Array β) :
    ∃ before next, r.readRows area false convert rows y done cache = (.error e, next) ∧
      r.HasRead first line before ∧ r.frame.lineSegment line ∉ before.tried ∧
        next.tried = r.frame.lineSegment line :: before.tried := by
  induction rows generalizing y done cache with
  | zero => omega
  | succ rows ih =>
      by_cases hhere : y = line
      · subst hhere
        have hresult : (r.segment (r.frame.lineSegment y) cache).1 = .error e := by
          rw [← hfails]
          exact SegmentCache.segment_result hread.agrees _
        have hy : y < r.frame.lines := by omega
        have hline := line_eq hcovered hcolumns hy cache
        rw [hresult, Outcome.error_map] at hline
        exact ⟨cache, _, readRows_of_line_error hline, hread, hread.segment_failed hy hfails⟩
      · obtain ⟨samples, hsegment⟩ := hbefore y (Nat.le_refl y) (by omega)
        obtain ⟨more, next, hnext, hstep⟩ := readRows_step area hcovered hcolumns hconvert
          hread hfirst (by omega) hsegment done
        obtain ⟨before, last, hrest, hlast⟩ := ih hnext (by omega) (by omega) (by omega) (by omega)
          (fun above hle' hlt' => hbefore above (by omega) hlt') more
        exact ⟨before, last, (hstep rows).trans hrest, hlast⟩

end Run

end FrameReader

end SeviriImagery
