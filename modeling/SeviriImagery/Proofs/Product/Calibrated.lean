import SeviriImagery.Proofs.Frame.Loading
import SeviriImagery.Proofs.Product.Faults
import SeviriImagery.Proofs.Product.Written
import SeviriImagery.Proofs.Word.Floating

/-!
# Decoding with a calibration

A product is decoded with its raw counts or calibrated.  The two ways read the same counts, but put
them into different stores and refuse different counts: one refuses a count that its bits cannot
hold, the other a count that is not in the table of its channel.

Neither refusal ever happens.  A depth that can be read has a table, of as many entries as there are
counts (`Calibration.ofChannel_thermal`); a count that is unpacked fits into its bits, and absent
data reads as 0.  So both ways succeed and fail alike, and what comes of the counts is made of them
one by one (`FrameReader.readRows_eq_map`); so does what is blank, for no number is left of no number
when 145 kelvin are taken off.  `LocatedProduct.attempt_calibrated` says this of an
attempt to decode a product.
-/

namespace SeviriImagery

/-- The calibrated pixels of an area, as they belong to its raw pixels.  Those of a reflective
channel are the same counts with the channel's gain; those of a thermal channel are the entries that
the counts have in the channel's table, less 145 kelvin.  As many pixels are stored as the size of the
area comes to, which are all of them unless that size goes round. -/
def PixelData.IsCalibrationOf (calibrated raw : PixelData) (radiometry : Radiometry) (c : Channel) :
    Prop :=
  if c.isReflective then
    calibrated = { raw with
      gain := radiometry.gain c
      scalesToInt := scalesExactly (radiometry.gain c) }
  else
    ∃ table values, radiometry.table c raw.bitsPerPixel = .ok table ∧
      calibrated = { raw with
        gain := ⟨.one, .ofValue (145 : Float32).toFloat⟩
        bitsPerPixel := valueDepth
        scalesToInt := false
        samples := .values values } ∧
      values.size = Size.mul raw.columns raw.lines ∧
      ∀ x y, x < raw.columns → y < raw.lines → raw.index x y < values.size →
        ∃ n entry, raw.raw x y = some n ∧ table[n]? = some entry ∧
          values[raw.index x y]? = some (entry - 145)

namespace FrameReader

variable {r : FrameReader} {cache : SegmentCache} {area : PixelArea} {β : Type}
  {convert : Nat → Except FormatError β} {f : Nat → β}

/-- A row of counts that are all converted is the row of what becomes of them. -/
theorem convertRow_eq_map {counts : List Nat} (hall : ∀ c ∈ counts, convert c = .ok (f c))
    (done : Array Nat) :
    convertRow convert counts (done.map f) =
      (convertRow Except.ok counts done).map (Array.map f) := by
  induction counts generalizing done with
  | nil => rfl
  | cons c counts ih =>
      have hrest := ih (fun d hd => hall d (List.mem_cons_of_mem c hd)) (done.push c)
      show ((convert c).mapError Error.format).map (done.map f).push >>= convertRow convert counts =
        (convertRow Except.ok counts (done.push c)).map (Array.map f)
      rw [hall c List.mem_cons_self, ← hrest, Array.map_push]
      rfl

/-- Rows whose counts are all converted are the rows of what becomes of the counts, and the same
segments are loaded for them. -/
theorem readRows_eq_map {cancelled : Bool} {rows y : Nat}
    (hconvert : ∀ line counts, r.lineCounts line = .ok counts →
      ∀ c ∈ counts, convert c = .ok (f c))
    (hcache : cache.Agrees r.source) (done : Array Nat) :
    r.readRows area cancelled convert rows y (done.map f) cache =
      ((r.readRows area cancelled Except.ok rows y done cache).1.map (Array.map f),
        (r.readRows area cancelled Except.ok rows y done cache).2) := by
  induction rows generalizing y done cache with
  | zero => rfl
  | succ rows ih =>
      unfold readRows
      cases cancelled with
      | true => rfl
      | false =>
          have hresult := line_result hcache y
          have hnext := agrees_line hcache y r.frame.columns
          generalize r.line y r.frame.columns cache = reading at hresult hnext ⊢
          obtain ⟨line, next⟩ := reading
          cases line with
          | error e => rfl
          | ok counts =>
              have hrow : ∀ c ∈ (counts.extract area.x (area.x + area.width)).toList,
                  convert c = .ok (f c) :=
                fun c hc => hconvert y counts hresult.symm c (mem_line_of_mem_row hc)
              simp only [Bool.false_eq_true, if_false, Except.bind, convertRow_eq_map hrow]
              cases convertRow Except.ok (counts.extract area.x (area.x + area.width)).toList
                done with
              | error e => rfl
              | ok more => exact ih hnext more

/-- The raw counts of an area, line by line; those of lines that were not read are 0. -/
def areaCounts (r : FrameReader) (area : PixelArea) (cancelled : Bool) : Except Error (Array Nat) :=
  (r.readCells area cancelled Except.ok 0 .fresh).1

/-- An area that is read has as many counts as its size comes to. -/
theorem size_of_areaCounts (hwords : r.frame.IsOfWords)
    (hends : area.endsWithin r.frame.columns r.frame.lines) {cancelled : Bool} {counts : Array Nat}
    (hread : r.areaCounts area cancelled = .ok counts) :
    counts.size = Size.mul area.width area.height := by
  obtain ⟨hfits, hrows⟩ | ⟨-, rfl⟩ := readCells_cases hread
  · have hwithin := (PixelArea.endsWithin_iff_isWithin hfits).mp hends
    have hfull := size_of_readRows (SegmentCache.agrees_fresh r.source) hwithin hrows
    rw [hfull, Size.mul_of_lt (hwords.area_lt hwithin)]
  · exact Array.size_replicate

/-- The values of an area are what becomes of its counts, and a blank is what becomes of the count 0.
-/
theorem areaValues_eq_map {cancelled : Bool}
    (hconvert : ∀ line counts, r.lineCounts line = .ok counts →
      ∀ c ∈ counts, convert c = .ok (f c)) :
    (r.readCells area cancelled convert (f 0) .fresh).1 =
      (r.areaCounts area cancelled).map (Array.map f) := by
  have hrows (part : PixelArea) (rows : Nat) :
      (r.readRows part cancelled convert rows part.y #[] .fresh).1 =
        (r.readRows part cancelled Except.ok rows part.y #[] .fresh).1.map (Array.map f) := by
    have hpairs : r.readRows part cancelled convert rows part.y (#[].map f) .fresh = _ :=
      readRows_eq_map hconvert (SegmentCache.agrees_fresh r.source) #[]
    rw [Array.map_empty] at hpairs
    rw [hpairs]
  unfold areaCounts
  by_cases hfits : area.Fits
  · rw [readCells_of_fits hfits, readCells_of_fits hfits]
    exact hrows area area.height
  by_cases hnone : area.spanLines = 0
  · rw [readCells_of_no_lines hnone, readCells_of_no_lines hnone, Outcome.ok_map, Array.map_replicate]
  · rw [readCells_of_reversed hnone hfits, readCells_of_reversed hnone hfits,
      hrows ⟨0, area.y, 0, 1⟩ 1]
    cases (r.readRows ⟨0, area.y, 0, 1⟩ cancelled Except.ok 1 area.y #[] .fresh).1 <;> rfl

variable {bitsPerPixel : Nat} {options : DecodeOptions}

/-- An area whose counts are kept has its counts for pixels. -/
theorem readArea_keeping {c : Calibration} (hwords : r.frame.IsOfWords)
    (hends : area.endsWithin r.frame.columns r.frame.lines) (hkeeps : c.keepsCounts)
    (hcounts : ∀ line counts, r.lineCounts line = .ok counts → ∀ n ∈ counts, n < 2 ^ bitsPerPixel) :
    (r.readArea area c bitsPerPixel options .fresh).1 =
      (r.areaCounts area options.cancelled).map fun counts =>
        ⟨area.width, area.height, c.gain, bitsPerPixel, PixelData.scalesExactly c.gain,
          options.missingValue, .counts (.ofDepth bitsPerPixel) counts⟩ := by
  have hchecked : ∀ line counts, r.lineCounts line = .ok counts →
      ∀ n ∈ counts, checkedCount bitsPerPixel n = .ok (id n) :=
    fun line counts hline n hn => checkedCount_of_lt (hcounts line counts hline n hn)
  have hvalues : (r.readCells area options.cancelled (checkedCount bitsPerPixel) 0 .fresh).1 =
      (r.areaCounts area options.cancelled).map (Array.map id) := areaValues_eq_map hchecked
  rw [readArea_of_keepsCounts _ _ _ _ _ _ hkeeps, hvalues]
  cases hread : r.areaCounts area options.cancelled with
  | error e => rfl
  | ok counts =>
      have hfull : (Samples.counts (.ofDepth bitsPerPixel) counts).size % Size.limit =
          Size.mul area.width area.height := by
        rw [Samples.size, size_of_areaCounts hwords hends hread]
        exact Nat.mod_mod _ _
      simp only [Outcome.ok_map, Except.bind, Array.map_id, PixelData.make_of_size hfull]
      rfl

/-- An area whose counts are looked up has their entries for pixels, less the baseline. -/
theorem readArea_table {values : Array Float32} {baseline : Float32} {f : Nat → Float32}
    (hwords : r.frame.IsOfWords) (hends : area.endsWithin r.frame.columns r.frame.lines)
    (hblank : f 0 = notANumber)
    (hentries : ∀ line counts, r.lineCounts line = .ok counts →
      ∀ n ∈ counts, values[n]? = some (f n)) :
    (r.readArea area (.table values baseline) bitsPerPixel options .fresh).1 =
      (r.areaCounts area options.cancelled).map fun counts =>
        ⟨area.width, area.height, ⟨.one, .ofValue baseline.toFloat⟩, PixelData.valueDepth, false,
          options.missingValue, .values (counts.map fun n => f n - baseline)⟩ := by
  have happly : ∀ line counts, r.lineCounts line = .ok counts → ∀ n ∈ counts,
      (Calibration.table values baseline).apply n = .ok (f n - baseline) := by
    intro line counts hline n hn
    obtain ⟨hin, hentry⟩ := Array.getElem?_eq_some_iff.mp (hentries line counts hline n hn)
    rw [Calibration.apply, dif_pos hin, hentry]
  have hzero : f 0 - baseline = notANumber := by rw [hblank, notANumber_sub]
  have hvalues := @areaValues_eq_map r area Float32 _ (fun n => f n - baseline) options.cancelled happly
  rw [hzero] at hvalues
  rw [readArea_of_not_keepsCounts _ _ _ _ _ _ (by simp [Calibration.keepsCounts]), hvalues]
  cases hread : r.areaCounts area options.cancelled with
  | error e => rfl
  | ok counts =>
      have hfull : (Samples.values (counts.map fun n => f n - baseline)).size % Size.limit =
          Size.mul area.width area.height := by
        rw [Samples.size, Array.size_map, size_of_areaCounts hwords hends hread]
        exact Nat.mod_mod _ _
      simp only [Outcome.ok_map, Except.bind, PixelData.make_of_size hfull]
      rfl

/-- The counts of an area are counts of its lines, or 0. -/
theorem exists_line_of_mem_areaCounts (hends : area.endsWithin r.frame.columns r.frame.lines)
    {cancelled : Bool} {counts : Array Nat} (hread : r.areaCounts area cancelled = .ok counts)
    {n : Nat} (hn : n ∈ counts) :
    n = 0 ∨ ∃ line held, r.lineCounts line = .ok held ∧ n ∈ held := by
  obtain ⟨hfits, hrows⟩ | ⟨-, rfl⟩ := readCells_cases hread
  swap
  · exact .inl (Array.mem_replicate.mp hn).2
  obtain ⟨-, hheight, hinside, -⟩ :=
    PixelArea.isWithin_iff.mp ((PixelArea.endsWithin_iff_isWithin hfits).mp hends)
  cases not_cancelled_of_readRows (Nat.ne_of_gt hheight) hrows
  obtain ⟨pixels, -, hcounts, hpixels⟩ :=
    pixels_of_readRows (SegmentCache.agrees_fresh r.source) hinside hrows
  rw [hcounts, Array.empty_append, List.mem_toArray] at hn
  obtain ⟨i, hi, rfl⟩ := List.mem_iff_getElem.mp hn
  obtain ⟨held, hline, hvalue⟩ := exists_line_of_pixel (hpixels i hi)
  rw [← Except.ok.inj hvalue]
  by_cases hin : area.x + i % area.width < held.size
  · refine .inr ⟨_, held, hline, ?_⟩
    simp [Array.getD_eq_getD_getElem?, hin]
  · refine .inl ?_
    simp [Array.getD_eq_getD_getElem?, hin]

/-- Counts that are read of segments in files fit into the bits of the segments. -/
theorem lt_of_mem_lineCounts {t : FileTree} {paths : List (Option String)} {shape : SegmentShape}
    (hsource : r.source = .ofFiles t paths shape) {line n : Nat} {counts : Array Nat}
    (hline : r.lineCounts line = .ok counts) (hn : n ∈ counts) : n < 2 ^ shape.bitsPerPixel := by
  rcases mem_source_of_mem_lineCounts hline hn with rfl | ⟨k, samples, -, hload, hmem⟩
  · exact Nat.two_pow_pos _
  · rw [hsource] at hload
    exact SegmentSource.lt_of_mem_ofFiles hload hmem

/-- So do the counts of an area. -/
theorem lt_of_mem_areaCounts {t : FileTree} {paths : List (Option String)} {shape : SegmentShape}
    (hsource : r.source = .ofFiles t paths shape)
    (hends : area.endsWithin r.frame.columns r.frame.lines) {cancelled : Bool} {counts : Array Nat}
    (hread : r.areaCounts area cancelled = .ok counts) {n : Nat} (hn : n ∈ counts) :
    n < 2 ^ shape.bitsPerPixel := by
  rcases exists_line_of_mem_areaCounts hends hread hn with rfl | ⟨line, held, hline, hmem⟩
  · exact Nat.two_pow_pos _
  · exact lt_of_mem_lineCounts hsource hline hmem

end FrameReader

namespace Calibration

/-- A reflective channel keeps its counts and has a gain. -/
theorem ofChannel_reflective (radiometry : Radiometry) {c : Channel} (hreflective : c.isReflective)
    (bitsPerPixel : Nat) :
    ofChannel radiometry c bitsPerPixel = .ok (.linear (radiometry.gain c)) := by
  rw [ofChannel, if_pos hreflective]

/-- For a depth that can be read a thermal channel has a table, with an entry for each count. -/
theorem ofChannel_thermal (radiometry : Radiometry) {c : Channel} (hthermal : ¬c.isReflective)
    {bitsPerPixel : Nat} (hdepth : 1 ≤ bitsPerPixel ∧ bitsPerPixel ≤ 16) :
    ∃ values, radiometry.table c bitsPerPixel = .ok values ∧
      (∀ n < 2 ^ bitsPerPixel, values[n]? = some (radiometry.physical c n)) ∧
      ofChannel radiometry c bitsPerPixel = .ok (.table values 145) := by
  have htable : radiometry.table c bitsPerPixel =
      .ok (Array.ofFn (n := 1 <<< bitsPerPixel) fun count => radiometry.physical c count) :=
    if_pos hdepth
  have hbaseline : c.baseline = 145 := if_neg hthermal
  refine ⟨_, htable, fun n hn => ?_, ?_⟩
  · rw [Array.getElem?_ofFn, dif_pos (by rwa [Nat.one_shiftLeft])]
  rw [ofChannel, if_neg hthermal, htable, Outcome.ok_bind, ofTable,
    if_neg (by rw [Array.size_ofFn]; exact Nat.lt_irrefl _), hbaseline]

end Calibration

namespace LocatedProduct

variable {t : FileTree} {p : LocatedProduct} {o : Opened}

/-- The calibration that is wanted, without its notes. -/
theorem calibration_result (options : DecodeOptions) :
    (calibration o options).result =
      if options.calibrate then
        (Calibration.ofChannel o.prologue.radiometry o.channel o.bitsPerPixel).mapError Error.format
      else .ok .identity := by
  unfold calibration
  split <;> simp

/-- The pixels of an area of which the counts are known: the counts as they are, with the gain of a
reflective channel if they are to be calibrated, or the temperatures of a thermal channel. -/
def Opened.pixels (o : Opened) (options : DecodeOptions) (area : PixelArea) (counts : Array Nat) :
    PixelData :=
  let radiometry := o.prologue.radiometry
  let keeping := fun gain : Gain =>
    PixelData.mk area.width area.height gain o.bitsPerPixel (PixelData.scalesExactly gain)
      options.missingValue (.counts (.ofDepth o.bitsPerPixel) counts)
  if !options.calibrate then keeping .identity
  else if o.channel.isReflective then keeping (radiometry.gain o.channel)
  else
    ⟨area.width, area.height, ⟨.one, .ofValue (145 : Float32).toFloat⟩, PixelData.valueDepth, false,
      options.missingValue, .values (counts.map fun n => radiometry.physical o.channel n - 145)⟩

/-- The pixels of an image, whatever they are, fill their area and name the missing value. -/
theorem Opened.pixels_shape (o : Opened) (options : DecodeOptions) (area : PixelArea)
    (counts : Array Nat) :
    (o.pixels options area counts).columns = area.width ∧
      (o.pixels options area counts).lines = area.height ∧
      (o.pixels options area counts).samples.size = counts.size ∧
      (o.pixels options area counts).missingValue = options.missingValue := by
  unfold Opened.pixels
  split
  · exact ⟨rfl, rfl, rfl, rfl⟩
  · split
    · exact ⟨rfl, rfl, rfl, rfl⟩
    · exact ⟨rfl, rfl, Array.size_map, rfl⟩

/-- What an attempt reads before anything is calibrated: the headers, the area and its counts. -/
def counted (t : FileTree) (p : LocatedProduct) (options : DecodeOptions) :
    Except Error (Opened × PixelArea × Array Nat) := do
  let o ← (p.openHeaders t).result
  let area ← requestedArea (p.frameImage o) o.reader options
  let counts ← o.reader.areaCounts area options.cancelled
  return (o, area, counts)

/-- An opened product has a calibration, and the pixels of its areas are made of their counts. -/
theorem readArea_opened (hopen : (p.openHeaders t).result = .ok o) (options : DecodeOptions) :
    ∃ c, (calibration o options).result = .ok c ∧
      ∀ area : PixelArea, area.endsWithin o.reader.frame.columns o.reader.frame.lines →
        (o.reader.readArea area c o.bitsPerPixel options .fresh).1 =
          (o.reader.areaCounts area options.cancelled).map (o.pixels options area) := by
  obtain ⟨hdepth, -, -, shape, hshape, hsource⟩ := isReadFrom_of_openHeaders hopen
  have hwords := isOfWords_of_openHeaders hopen
  have hcounts : ∀ line counts, o.reader.lineCounts line = .ok counts →
      ∀ n ∈ counts, n < 2 ^ o.bitsPerPixel := by
    intro line counts hline n hn
    rw [← hshape]
    exact FrameReader.lt_of_mem_lineCounts hsource hline hn
  rw [calibration_result]
  unfold Opened.pixels
  cases options.calibrate with
  | false =>
      exact ⟨.identity, rfl, fun area hends => FrameReader.readArea_keeping hwords hends rfl hcounts⟩
  | true =>
      by_cases hreflective : o.channel.isReflective
      · refine ⟨.linear (o.prologue.radiometry.gain o.channel), ?_, ?_⟩
        · rw [if_pos rfl, Calibration.ofChannel_reflective _ hreflective]
          rfl
        · intro area hends
          simp only [hreflective, if_true]
          exact FrameReader.readArea_keeping hwords hends rfl hcounts
      · obtain ⟨values, -, hentries, hchannel⟩ :=
          Calibration.ofChannel_thermal o.prologue.radiometry hreflective hdepth
        refine ⟨.table values 145, ?_, ?_⟩
        · rw [if_pos rfl, hchannel]
          rfl
        · intro area hends
          simp only [hreflective]
          exact FrameReader.readArea_table hwords hends rfl fun line counts hline n hn =>
            hentries n (hcounts line counts hline n hn)

/-- The result of an attempt is made of what was read. -/
theorem attempt_eq_counted (options : DecodeOptions) (start : Stage) :
    (p.attempt t options start).result =
      (p.counted t options).map fun (o, area, counts) =>
        areaImage (p.frameImage o) area o.reader.frame.columns (o.pixels options area counts) := by
  rw [attempt_result, counted]
  cases hopen : (p.openHeaders t).result with
  | error e => rfl
  | ok o =>
      obtain ⟨c, hcalibration, hread⟩ := readArea_opened hopen options
      simp only [Outcome.ok_bind, hcalibration]
      cases harea : requestedArea (p.frameImage o) o.reader options with
      | error e => rfl
      | ok area =>
          simp only [Outcome.ok_bind, hread area (endsWithin_of_requestedArea harea)]
          cases o.reader.areaCounts area options.cancelled <;> rfl

/-- An attempt succeeds if the headers can be opened, an area is granted and its counts are read. -/
theorem attempt_eq_ok_iff {options : DecodeOptions} {start : Stage} {image : Image} :
    (p.attempt t options start).result = .ok image ↔
      ∃ o area counts, (p.openHeaders t).result = .ok o ∧
        requestedArea (p.frameImage o) o.reader options = .ok area ∧
        o.reader.areaCounts area options.cancelled = .ok counts ∧
        image = areaImage (p.frameImage o) area o.reader.frame.columns
          (o.pixels options area counts) := by
  rw [attempt_eq_counted, counted]
  constructor
  · intro hdecoded
    obtain ⟨_, hcounted, himage⟩ := Outcome.map_eq_ok_iff.mp hdecoded
    obtain ⟨o, hopen, hcounted⟩ := Outcome.bind_eq_ok_iff.mp hcounted
    obtain ⟨area, hwanted, hcounted⟩ := Outcome.bind_eq_ok_iff.mp hcounted
    obtain ⟨counts, hread, hsame⟩ := Outcome.bind_eq_ok_iff.mp hcounted
    cases hsame
    exact ⟨o, area, counts, hopen, hwanted, hread, himage.symm⟩
  · intro hgiven
    obtain ⟨o, area, counts, hopen, hwanted, hread, rfl⟩ := hgiven
    simp only [hopen, hwanted, hread, Outcome.ok_bind]
    rfl

/-- The calibrated pixels of counts that were read belong to the raw ones. -/
theorem pixels_calibrated {options : DecodeOptions} {area : PixelArea} {counts : Array Nat}
    (hcounted : p.counted t options = .ok (o, area, counts)) :
    (o.pixels { options with calibrate := true } area counts).IsCalibrationOf
      (o.pixels { options with calibrate := false } area counts) o.prologue.radiometry
        o.channel := by
  obtain ⟨_, hopen, hcounted⟩ := Outcome.bind_eq_ok_iff.mp hcounted
  obtain ⟨_, hwanted, hcounted⟩ := Outcome.bind_eq_ok_iff.mp hcounted
  obtain ⟨_, hread, hsame⟩ := Outcome.bind_eq_ok_iff.mp hcounted
  cases hsame
  obtain ⟨hdepth, -, -, shape, hshape, hsource⟩ := isReadFrom_of_openHeaders hopen
  have hends := endsWithin_of_requestedArea hwanted
  have hsize := FrameReader.size_of_areaCounts (isOfWords_of_openHeaders hopen) hends hread
  have hbound : ∀ n ∈ counts, n < 2 ^ o.bitsPerPixel := by
    intro n hn
    rw [← hshape]
    exact FrameReader.lt_of_mem_areaCounts hsource hends hread hn
  unfold PixelData.IsCalibrationOf Opened.pixels
  by_cases hreflective : o.channel.isReflective
  · simp only [hreflective, if_true]
    rfl
  · obtain ⟨table, htable, hentries, -⟩ :=
      Calibration.ofChannel_thermal o.prologue.radiometry hreflective hdepth
    simp only [hreflective]
    have hstored : (counts.map fun n => o.prologue.radiometry.physical o.channel n - 145).size =
        Size.mul area.width area.height := by
      rw [Array.size_map, hsize]
    refine ⟨table, _, htable, rfl, hstored, fun x y _ _ hin => ?_⟩
    have hplace : y * area.width + x < counts.size := by rwa [Array.size_map] at hin
    refine ⟨counts[y * area.width + x], _, ?_, hentries _ (hbound _ (Array.getElem_mem hplace)), ?_⟩
    · show some (counts.getD (y * area.width + x) 0) = _
      rw [Array.getD_eq_getD_getElem?, Array.getElem?_eq_getElem hplace, Option.getD_some]
    · show (counts.map _)[y * area.width + x]? = _
      rw [Array.getElem?_map, Array.getElem?_eq_getElem hplace]
      rfl

/-- The calibrated pixels of an attempt belong to those of the same attempt without calibration. -/
theorem isCalibrationOf_of_attempts {options : DecodeOptions} {start : Stage}
    {calibrated raw : Image}
    (hcalibrated : (p.attempt t { options with calibrate := true } start).result = .ok calibrated)
    (hraw : (p.attempt t { options with calibrate := false } start).result = .ok raw) :
    ∃ prologue c, t.readPrologue p.prologue = .ok prologue ∧
      Channel.ofNumber? raw.channelNumber = some c ∧
      calibrated.data.IsCalibrationOf raw.data prologue.radiometry c := by
  have hsame : ∀ calibrate, p.counted t { options with calibrate } = p.counted t options :=
    fun _ => rfl
  rw [attempt_eq_counted, hsame, Outcome.map_eq_ok_iff] at hcalibrated hraw
  obtain ⟨⟨o, area, counts⟩, hcounted, rfl⟩ := hcalibrated
  obtain ⟨_, hagain, rfl⟩ := hraw
  rw [hcounted] at hagain
  cases hagain
  obtain ⟨_, hopen, hrest⟩ := Outcome.bind_eq_ok_iff.mp hcounted
  obtain ⟨_, -, hrest⟩ := Outcome.bind_eq_ok_iff.mp hrest
  obtain ⟨_, -, hread⟩ := Outcome.bind_eq_ok_iff.mp hrest
  cases hread
  have hopened := isReadFrom_of_openHeaders hopen
  refine ⟨o.prologue, o.channel, hopened.prologue, ?_, ?_⟩
  · rw [areaImage_channelNumber]
    exact hopened.channel
  · rw [(areaImage_parts _ _ _ _).1, (areaImage_parts _ _ _ _).1]
    exact pixels_calibrated hcounted

end LocatedProduct

end SeviriImagery
