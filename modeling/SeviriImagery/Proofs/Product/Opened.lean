import SeviriImagery.Proofs.Product.Attempt
import SeviriImagery.Proofs.Product.Locating
import SeviriImagery.Proofs.Segment.File
import SeviriImagery.Proofs.SpaceView.Exact

/-!
# Opened products

Opening the headers of a product is a chain of checks (`LocatedProduct.openHeaders_result`).  A
product that passes them all has a depth that can be read, a known channel and a prologue, and its
segments are read from its files with that depth (`LocatedProduct.Opened.IsReadFrom`).  So every
sample of such a segment fits into the bits that the headers announce.
-/

namespace SeviriImagery

/-- A header that describes image data has a depth that can be read. -/
theorem SegmentHeader.depth_of_checkImageData {h : SegmentHeader}
    (hcheck : h.checkImageData = .ok ()) :
    ∃ image, h.requireStructure = .ok image ∧
      1 ≤ image.bitsPerPixel.toNat ∧ image.bitsPerPixel.toNat ≤ 16 := by
  obtain ⟨image, himage⟩ := checkImageData_eq_ok_iff.mp hcheck
  exact ⟨image, require_eq_ok_iff.mpr himage.structured, himage.depth⟩

/-- The segments of a product are read from its files, in the shape of its first header. -/
theorem FrameReader.source_of_ofProduct {t : FileTree} {p : LocatedProduct} {coverage : Coverage}
    {r : FrameReader} (hreader : ofProduct t p coverage = .ok r) :
    ∃ image, p.firstHeader.requireStructure = .ok image ∧
      r.source = .ofFiles t p.segments image.shape := by
  unfold ofProduct at hreader
  obtain ⟨image, himage, hreader⟩ := Outcome.bind_eq_ok_iff.mp hreader
  obtain ⟨navigation, -, hreader⟩ := Outcome.bind_eq_ok_iff.mp hreader
  obtain ⟨identification, -, hreader⟩ := Outcome.bind_eq_ok_iff.mp hreader
  refine ⟨image, Outcome.mapError_eq_ok_iff.mp himage, ?_⟩
  dsimp only at hreader
  split at hreader
  · obtain ⟨halves, -, hreader⟩ := Outcome.bind_eq_ok_iff.mp hreader
    cases hreader
    rfl
  · cases hreader
    rfl

/-- The frame of a product is measured and counted by words of 16 bits. -/
theorem FrameReader.isOfWords_of_ofProduct {t : FileTree} {p : LocatedProduct} {coverage : Coverage}
    {r : FrameReader} (hreader : ofProduct t p coverage = .ok r) : r.frame.IsOfWords := by
  unfold ofProduct at hreader
  obtain ⟨image, -, hreader⟩ := Outcome.bind_eq_ok_iff.mp hreader
  obtain ⟨navigation, -, hreader⟩ := Outcome.bind_eq_ok_iff.mp hreader
  obtain ⟨identification, -, hreader⟩ := Outcome.bind_eq_ok_iff.mp hreader
  have hwords := And.intro image.columns.toNat_lt (And.intro image.lines.toNat_lt p.planned)
  dsimp only at hreader
  split at hreader
  · obtain ⟨halves, -, hreader⟩ := Outcome.bind_eq_ok_iff.mp hreader
    cases hreader
    exact ⟨hwords.1, hwords.2.1, hwords.2.2⟩
  · cases hreader
    exact ⟨hwords.1, hwords.2.1, hwords.2.2⟩

/-- The half images of a frame, if it has any, are those of the coverage. -/
theorem FrameReader.isCovered_of_ofProduct {t : FileTree} {p : LocatedProduct} {coverage : Coverage}
    {r : FrameReader} (hreader : ofProduct t p coverage = .ok r) : r.frame.IsCovered := by
  unfold ofProduct at hreader
  obtain ⟨image, -, hreader⟩ := Outcome.bind_eq_ok_iff.mp hreader
  obtain ⟨navigation, -, hreader⟩ := Outcome.bind_eq_ok_iff.mp hreader
  obtain ⟨identification, -, hreader⟩ := Outcome.bind_eq_ok_iff.mp hreader
  dsimp only at hreader
  split at hreader
  · obtain ⟨halves, hcoverage, hreader⟩ := Outcome.bind_eq_ok_iff.mp hreader
    obtain ⟨covered, hcovered, rfl⟩ := Outcome.map_eq_ok_iff.mp hcoverage
    cases hreader
    intro h hsame
    cases hsame
    exact ⟨coverage, Outcome.mapError_eq_ok_iff.mp hcovered⟩
  · cases hreader
    exact nofun

/-- A sample of a segment fits into the bits of the shape that is expected. -/
theorem SegmentHeader.lt_of_mem_samples {h : SegmentHeader} {data : List UInt8}
    {expected : SegmentShape} {samples : Array Nat} (hsamples : h.samples data expected = .ok samples)
    {n : Nat} (hn : n ∈ samples) : n < 2 ^ expected.bitsPerPixel := by
  obtain ⟨⟨image, -, rfl⟩, hunpack⟩ := samples_eq_ok_iff.mp hsamples
  exact Packing.lt_of_mem_unpack image.bits_lt hunpack hn

/-- So does a sample of a segment in a file. -/
theorem SegmentSource.lt_of_mem_ofFiles {t : FileTree} {paths : List (Option String)}
    {shape : SegmentShape} {k : Nat} {samples : Array Nat}
    (hload : (ofFiles t paths shape).load k = .ok samples) {n : Nat} (hn : n ∈ samples) :
    n < 2 ^ shape.bitsPerPixel := by
  unfold ofFiles at hload
  dsimp only at hload
  split at hload
  · obtain ⟨⟨h, data⟩, -, hsamples⟩ := Outcome.bind_eq_ok_iff.mp hload
    exact SegmentHeader.lt_of_mem_samples (Outcome.inFile_eq_ok_iff.mp hsamples) hn
  · cases hload

namespace LocatedProduct

/-- What is known of a product whose headers were opened: its depth can be read, its prologue and
its channel are those of its files, and its segments are read from its files with that depth. -/
structure Opened.IsReadFrom (o : Opened) (t : FileTree) (p : LocatedProduct) : Prop where
  depth : 1 ≤ o.bitsPerPixel ∧ o.bitsPerPixel ≤ 16
  prologue : t.readPrologue p.prologue = .ok o.prologue
  channel : Channel.ofNumber? o.identification.channel = some o.channel
  source : ∃ shape : SegmentShape, shape.bitsPerPixel = o.bitsPerPixel ∧
    o.reader.source = .ofFiles t p.segments shape

variable (t : FileTree) (p : LocatedProduct)

/-- The outcome of opening the headers, without its notes. -/
theorem openHeaders_result :
    (p.openHeaders t).result = (do
      inFile p.firstPath p.firstHeader.checkImageData
      let prologue ← t.readPrologue p.prologue
      let identification ← p.firstHeader.requireIdentification.mapError Error.parse
      let channel ← (Channel.ofNumber? identification.channel).elim
        (.error (.format (.unknownChannel identification.channel))) Except.ok
      let coverage ← (if channel = .hrv then (p.coverage t prologue).result else .ok .zero :
        Except Error Coverage)
      let reader ← FrameReader.ofProduct t p coverage
      let image ← p.firstHeader.requireStructure.mapError Error.parse
      let navigation ← p.firstHeader.requireNavigation.mapError Error.parse
      Except.ok
        ⟨prologue, channel, image.bitsPerPixel.toNat, navigation, identification, reader⟩) := by
  unfold openHeaders
  simp only [Noted.result_bind, Noted.result_monadLift]
  refine bind_congr fun _ => bind_congr fun prologue => bind_congr fun identification => ?_
  refine bind_congr fun channel => ?_
  split <;> simp only [Noted.result_bind, Noted.result_pure,
    Noted.result_monadLift, Outcome.ok_bind]

variable {t p}

theorem isReadFrom_of_openHeaders {o : Opened} (hopen : (p.openHeaders t).result = .ok o) :
    o.IsReadFrom t p := by
  rw [openHeaders_result] at hopen
  simp only [Outcome.bind_eq_ok_iff, Outcome.inFile_eq_ok_iff, Outcome.mapError_eq_ok_iff] at hopen
  obtain ⟨⟨⟩, hcheck, prologue, hprologue, identification, -, channel, hchannel, coverage, -, reader,
    hreader, image, himage, navigation, -, hopened⟩ := hopen
  cases hopened
  obtain ⟨same, hsame, hdepth⟩ := SegmentHeader.depth_of_checkImageData hcheck
  obtain ⟨found, hfound, hsource⟩ := FrameReader.source_of_ofProduct hreader
  rw [himage] at hsame hfound
  cases hsame
  cases hfound
  refine ⟨hdepth, hprologue, ?_, image.shape, rfl, hsource⟩
  cases hnumber : Channel.ofNumber? identification.channel with
  | none => rw [hnumber] at hchannel; cases hchannel
  | some known => rw [hnumber] at hchannel; cases hchannel; rfl

/-- The reader of an opened product is made from what was located. -/
theorem exists_ofProduct_of_openHeaders {o : Opened} (hopen : (p.openHeaders t).result = .ok o) :
    ∃ coverage, FrameReader.ofProduct t p coverage = .ok o.reader := by
  rw [openHeaders_result] at hopen
  simp only [Outcome.bind_eq_ok_iff] at hopen
  obtain ⟨_, -, prologue, -, identification, -, channel, -, coverage, -, reader, hreader, image, -,
    navigation, -, hopened⟩ := hopen
  cases hopened
  exact ⟨coverage, hreader⟩

/-- The frame of an opened product is measured and counted by words of 16 bits. -/
theorem isOfWords_of_openHeaders {o : Opened} (hopen : (p.openHeaders t).result = .ok o) :
    o.reader.frame.IsOfWords := by
  obtain ⟨coverage, hreader⟩ := exists_ofProduct_of_openHeaders hopen
  exact FrameReader.isOfWords_of_ofProduct hreader

/-- Its half images are those of a coverage. -/
theorem isCovered_of_openHeaders {o : Opened} (hopen : (p.openHeaders t).result = .ok o) :
    o.reader.frame.IsCovered := by
  obtain ⟨coverage, hreader⟩ := exists_ofProduct_of_openHeaders hopen
  exact FrameReader.isCovered_of_ofProduct hreader

section Granted

variable {frame : Image} {r : FrameReader} {options : DecodeOptions} {area : PixelArea}

/-- An area that is granted is the one that was asked for, that of the pixels of a geographic one, or
the whole frame; and it ends in the frame. -/
theorem cases_of_requestedArea (harea : requestedArea frame r options = .ok area) :
    (options.area = some area ∨ options.area = none ∧
      ((∃ geo, frame.view.pixelArea geo r.frame.columns r.frame.lines = .ok area) ∨
        area = ⟨0, 0, r.frame.columns, r.frame.lines⟩)) ∧
    area.endsWithin r.frame.columns r.frame.lines := by
  have hcheck : ∀ wanted : PixelArea,
      (wanted.checkWithin r.frame.columns r.frame.lines >>= fun _ => Except.ok wanted) = .ok area →
        wanted = area ∧ area.endsWithin r.frame.columns r.frame.lines := by
    intro wanted hwanted
    obtain ⟨⟨⟩, hwithin, hsame⟩ := Outcome.bind_eq_ok_iff.mp hwanted
    cases hsame
    exact ⟨rfl, PixelArea.checkWithin_eq_ok_iff.mp hwithin⟩
  unfold requestedArea at harea
  dsimp only at harea
  split at harea
  · cases harea
  · rename_i asked hasked hgeo
    obtain ⟨rfl, hends⟩ := hcheck _ harea
    exact ⟨.inl hasked, hends⟩
  · rename_i geo hasked hgeo
    obtain ⟨wanted, hpixels, harea⟩ := Outcome.bind_eq_ok_iff.mp harea
    obtain ⟨rfl, hends⟩ := hcheck wanted harea
    exact ⟨.inr ⟨hasked, .inl ⟨geo, hpixels⟩⟩, hends⟩
  · rename_i hasked hgeo
    obtain ⟨rfl, hends⟩ := hcheck _ harea
    exact ⟨.inr ⟨hasked, .inr rfl⟩, hends⟩

theorem endsWithin_of_requestedArea (harea : requestedArea frame r options = .ok area) :
    area.endsWithin r.frame.columns r.frame.lines :=
  (cases_of_requestedArea harea).2

/-- If it fits, it lies in the frame. -/
theorem isWithin_of_requestedArea (harea : requestedArea frame r options = .ok area)
    (hfits : area.Fits) : area.isWithin r.frame.columns r.frame.lines :=
  (PixelArea.endsWithin_iff_isWithin hfits).mp (endsWithin_of_requestedArea harea)

end Granted

end LocatedProduct

end SeviriImagery
