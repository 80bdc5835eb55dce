import SeviriImagery.Product.Export
import SeviriImagery.Proofs.Product.Written

/-!
# Images that come back

An image of counts that is written as a product is cut into segments, turned by 180 degrees, and
its factors and offsets are turned with it.  Decoding the product undoes each of these steps from
what the files say, and the image comes back (`Image.IsKeptBy`).

The files are those of a prologue, an epilogue and every segment, each written once
(`Image.writeCalls`).  So what is known of products that are written call by call applies, and it
remains to be seen that each stored sample is the count of the pixel at its place
(`Image.IsExportable.countAt_eq`).
-/

namespace SeviriImagery

namespace Spacecraft

/-- The numbers that satellites have in files. -/
theorem ofTable_mem (id : UInt16) : ofTable id ∈ unknownInFiles :: codes.map Prod.fst := by
  unfold ofTable
  cases hfind : codes.find? (fun c => c.2 == id) with
  | none => exact List.mem_cons_self
  | some c =>
      exact List.mem_cons_of_mem _ (List.mem_map_of_mem (List.mem_of_find?_eq_some hfind))

/-- A documented satellite is told by its number in files, and any other becomes unknown. -/
theorem toTable_ofTable (id : UInt16) :
    toTable (ofTable id) = if id ∈ codes.map Prod.snd then id else unknownInTable := by
  by_cases hid : id ∈ codes.map Prod.snd
  · rw [if_pos hid]
    simp only [codes, List.map_cons, List.map_nil, List.mem_cons, List.not_mem_nil, or_false] at hid
    rcases hid with rfl | rfl | rfl | rfl <;> decide
  · have hnone : codes.find? (fun c => c.2 == id) = none := by
      rw [List.find?_eq_none]
      intro c hc hsame
      exact hid (List.mem_map.mpr ⟨c, hc, beq_iff_eq.mp hsame⟩)
    rw [if_neg hid, ofTable, hnone]
    decide

/-- Satellites have short names in file names. -/
theorem fileName_ofTable (id : UInt16) :
    (∀ c ∈ (fileName (ofTable id)).toList, c.isAlphanum) ∧
      (fileName (ofTable id)).toList.length ≤ 6 := by
  have hmem := ofTable_mem id
  generalize ofTable id = n at hmem ⊢
  have hunknown : fileName unknownInFiles = "MSG" := by decide
  have hfirst : fileName 321 = "MSG1" := by decide
  have hsecond : fileName 322 = "MSG2" := by decide
  have hthird : fileName 323 = "MSG3" := by decide
  have hfourth : fileName 324 = "MSG4" := by decide
  simp only [codes, List.map_cons, List.map_nil, List.mem_cons, List.not_mem_nil, or_false] at hmem
  rcases hmem with rfl | rfl | rfl | rfl | rfl
  · simp [hunknown]
  · simp [hfirst]
  · simp [hsecond]
  · simp [hthird]
  · simp [hfourth]

end Spacecraft

/-- A channel that is found has the number under which it is found. -/
theorem Channel.number_of_ofNumber? {n : UInt8} {c : Channel} (hfind : ofNumber? n = some c) :
    c.number = n := by
  have hsame := List.find?_some hfind
  exact beq_iff_eq.mp hsame

/-- Pixels that are not calibrated values have counts. -/
theorem PixelData.exists_raw {d : PixelData} (hcounts : d.isPrescaled = false) (column line : Nat) :
    ∃ count, d.raw column line = some count := by
  unfold raw
  cases hsamples : d.samples with
  | counts width stored => exact ⟨_, rfl⟩
  | values stored =>
      rw [isPrescaled, hsamples] at hcounts
      cases hcounts

/-- A file that is stored has a path that the file system takes. -/
theorem FileTree.checkPath_of_store {t : FileTree} {file : NewFile} {path : String}
    (hstored : (t.store file).2.result = .ok path) : checkPath file.path = .ok () := by
  unfold store at hstored
  cases hwrite : t.write file.path file.bytes with
  | error fault =>
      rw [hwrite] at hstored
      cases hstored
  | ok next =>
      obtain ⟨⟨⟩, hcheck, -⟩ := Outcome.bind_eq_ok_iff.mp hwrite
      exact hcheck

/-- If the files that some calls make could be stored, the file system takes the path of each. -/
theorem ProductLayout.checkPath_of_storeAll {l : ProductLayout} {calls : List WriteCall}
    {files : List NewFile} (hfiles : List.Forall₂ (fun c file => l.fileOf c = .ok file) calls files)
    {t : FileTree} (hstored : (t.storeAll files).2.result = .ok ()) {call : WriteCall}
    (hcall : call ∈ calls) :
    ∃ file, l.fileOf call = .ok file ∧ FileTree.checkPath file.path = .ok () := by
  induction hfiles generalizing t with
  | nil => cases hcall
  | @cons first file calls files hfile hrest ih =>
      rw [FileTree.storeAll] at hstored
      cases hfirst : (t.store file).2.result with
      | error e =>
          simp only [hfirst] at hstored
          cases hstored
      | ok path =>
          simp only [hfirst] at hstored
          rcases List.mem_cons.mp hcall with rfl | hcall
          · exact ⟨file, hfile, FileTree.checkPath_of_store hfirst⟩
          · exact ih hstored hcall

namespace Image

/-- A segment has a line at least. -/
theorem segmentHeight_pos (lines : Nat) : 0 < segmentHeight lines := by
  unfold segmentHeight
  by_cases hwhole : lines % usualSegmentLines = 0
  · rw [if_pos hwhole]
    decide
  · rw [if_neg hwhole, Nat.pos_iff_ne_zero]
    intro hsame
    subst hsame
    exact hwhole (Nat.zero_mod _)

/-- The segments of an image have all of its lines. -/
theorem segmentCount_mul_height (lines : Nat) :
    lines / segmentHeight lines * segmentHeight lines = lines := by
  unfold segmentHeight
  by_cases hwhole : lines % usualSegmentLines = 0
  · rw [if_pos hwhole]
    exact Nat.div_mul_cancel (Nat.dvd_of_mod_eq_zero hwhole)
  · rw [if_neg hwhole]
    exact Nat.div_mul_cancel (Nat.dvd_refl lines)

/-- An image with lines is cut into a segment at least. -/
theorem segmentCount_pos {lines : Nat} (hlines : lines ≠ 0) : 0 < lines / segmentHeight lines := by
  rw [Nat.pos_iff_ne_zero]
  intro hzero
  have hall := segmentCount_mul_height lines
  rw [hzero, Nat.zero_mul] at hall
  exact hlines hall.symm

/-- An image that can be written as a product of a channel: it has counts, and a segment file can
name its columns, the lines of its segments and their count. -/
structure IsExportable (i : Image) (c : Channel) : Prop where
  channel : i.channel? = some c
  lower : c ≠ .hrv
  counts : i.data.isPrescaled = false
  depth : 1 ≤ i.data.bitsPerPixel ∧ i.data.bitsPerPixel ≤ 16
  columns : i.columns ≤ segmentFieldLimit
  height : segmentHeight i.lines ≤ segmentFieldLimit
  segments : i.lines / segmentHeight i.lines ≤ segmentFieldLimit

/-- What an image says is kept by another that came back for it: its pixels and what is known about
them.  A satellite that is not documented has become unknown. -/
structure IsKeptBy (i back : Image) : Prop where
  columns : back.columns = i.columns
  lines : back.lines = i.lines
  raw : ∀ x y, x < i.columns → y < i.lines → back.data.raw x y = i.data.raw x y
  depth : back.data.bitsPerPixel = i.data.bitsPerPixel
  columnFactor : back.columnFactor = i.columnFactor
  lineFactor : back.lineFactor = i.lineFactor
  columnOffset : back.columnOffset = i.columnOffset
  lineOffset : back.lineOffset = i.lineOffset
  channelNumber : back.channelNumber = i.channelNumber
  time : back.time = i.time
  quality : back.quality = .complete
  spacecraft : back.spacecraft =
    if i.spacecraft ∈ Spacecraft.codes.map Prod.snd then i.spacecraft else Spacecraft.unknownInTable

/-- The place along a side of an image that comes back at place `k`: the same if the factor is
positive, and the one opposite if it is not. -/
def placeBehind (factor : Int32) (size k : Nat) : Nat :=
  if 0 < factor then k else size - 1 - k

/-- The pixels of an image are those of another. -/
structure HasPixelsOf (back i : Image) : Prop where
  columns : back.columns = i.columns
  lines : back.lines = i.lines
  raw : ∀ x y, x < i.columns → y < i.lines → back.data.raw x y = i.data.raw x y

variable {i : Image} {c : Channel} {name : ProductName} {directory : String}
  {radiometry : Option Radiometry} {files : List NewFile} {t : FileTree} {place : Place}

/-- An image that is accepted can be written. -/
theorem isExportable_of_exportChannel (hchannel : i.exportChannel = .ok c) : i.IsExportable c := by
  unfold exportChannel at hchannel
  cases hfind : i.channel? with
  | none =>
      rw [hfind] at hchannel
      cases hchannel
  | some own =>
      rw [hfind] at hchannel
      simp only at hchannel
      by_cases hlower : own = .hrv
      · rw [if_pos hlower] at hchannel
        cases hchannel
      · rw [if_neg hlower] at hchannel
        split at hchannel
        · cases hchannel
        · rename_i hcounts
          split at hchannel
          · cases hchannel
          · rename_i hsize
            cases hchannel
            simp only [Bool.or_eq_true, beq_iff_eq, decide_eq_true_eq, not_or,
              Bool.not_eq_true] at hcounts
            exact ⟨hfind, hlower, hcounts.1.1, by omega, by omega, by omega, by omega⟩

/-- An image passes the checks of an export if it can be exported as some channel. -/
theorem exportChannel_eq_ok_iff : i.exportChannel = .ok c ↔ i.IsExportable c := by
  constructor
  · exact isExportable_of_exportChannel
  · intro hgiven
    obtain ⟨hchannel, hlower, hcounts, hdepth, hcolumns, hheight, hsegments⟩ := hgiven
    have hbits : ¬(i.data.isPrescaled || i.data.bitsPerPixel == 0 ||
        16 < i.data.bitsPerPixel) := by
      simp only [hcounts, Bool.or_eq_true, beq_iff_eq, decide_eq_true_eq, Bool.false_eq_true, false_or]
      omega
    rw [exportChannel, hchannel]
    simp only
    rw [if_neg hlower, if_neg hbits, if_neg (by omega)]

/-- The product of an image is named after its spacecraft, its channel and its time. -/
theorem productName_eq_ok_iff :
    i.productName directory c = .ok name ↔ name.check = .ok () ∧
      name = ⟨directory, "H", Spacecraft.fileName (Spacecraft.ofTable i.spacecraft), c.name,
        i.time.timing⟩ := by
  rw [productName, Outcome.mapError_eq_ok_iff, ProductName.checked, Outcome.bind_eq_ok_iff]
  constructor
  · intro hgiven
    obtain ⟨⟨⟩, hcheck, hname⟩ := hgiven
    cases hname
    exact ⟨hcheck, rfl⟩
  · intro hgiven
    obtain ⟨hcheck, rfl⟩ := hgiven
    exact ⟨(), hcheck, rfl⟩

/-- The name of an image's product can be written and found, if the file system takes the path of the
prologue. -/
theorem isWritable_of_productName (hname : i.productName directory c = .ok name)
    (hpath : FileTree.checkPath (Path.join name.directory name.prologueName) = .ok ()) :
    name.IsWritable := by
  obtain ⟨hcheck, hown⟩ := productName_eq_ok_iff.mp hname
  obtain ⟨hascii, hshort⟩ := Spacecraft.fileName_ofTable i.spacecraft
  have hclear : Char.ofNat 0 ∉ (name.memberName (.segment 1)).toList := by
    -- only the channel stands in the name of a segment and not in that of the prologue
    obtain ⟨hclean, -, -⟩ := FileTree.checkPath_eq_ok_iff.mp hpath
    have hslash := (ProductName.isPlainName_memberName hcheck .prologue).no_slash
    have hchannel : Char.ofNat 0 ∉ c.name.toList := by cases c <;> decide
    have hsecond : name.productId2 = c.name := by rw [hown]
    intro hnul
    rcases ProductName.mem_memberName hnul with hpart | hplain
    · refine hclean (Path.mem_join hslash (.inr ?_))
      simp only [ProductName.partChars, List.mem_append, hsecond, hchannel, false_or] at hpart
      rw [ProductName.toList_memberName, ProductName.identifiers,
        Text.toList_underscorePadded name.productId1 12]
      rcases hpart with hpart | hpart | hpart <;> simp [hpart]
    · revert hplain
      decide
  refine ⟨hcheck, ?_, ?_, @ProductName.checkPath_memberName_of name hcheck .prologue (.segment 1)
    hpath hclear⟩
  · rw [hown]
    exact fun c hc => ProductMember.utf8Size_of_isPlain (.inl (hascii c hc))
  · rw [hown]
    exact hshort

/-- The calls that write an image: a prologue, an epilogue and every segment once. -/
def writeCalls (i : Image) (c : Channel) (radiometry : Option Radiometry) : List WriteCall :=
  .prologue (i.prologue (radiometry.getD (i.ownRadiometry c))) :: .epilogue ⟨.zero⟩ ::
    (List.range (i.lines / segmentHeight i.lines)).map fun segment =>
      .segment (.ofNat (segment + 1)) (i.storedSamples (segmentHeight i.lines) segment)

/-- The prologue of an image is among its files, and no other one. -/
theorem prologue_mem_writeCalls_iff {p : Prologue} :
    .prologue p ∈ i.writeCalls c radiometry ↔
      p = i.prologue (radiometry.getD (i.ownRadiometry c)) := by
  simp [writeCalls]

/-- The first segment of an image with lines is written. -/
theorem segment_mem_writeCalls (hlines : i.lines ≠ 0) (c : Channel)
    (radiometry : Option Radiometry) :
    WriteCall.segment 1 (i.storedSamples (segmentHeight i.lines) 0) ∈ i.writeCalls c radiometry :=
  List.mem_cons_of_mem _ (List.mem_cons_of_mem _
    (List.mem_map.mpr ⟨0, List.mem_range.mpr (segmentCount_pos hlines), rfl⟩))

/-- The files of an image are those that its calls make. -/
theorem productFiles_eq_ok_iff :
    i.productFiles directory radiometry = .ok (name, files) ↔
      ∃ c, i.IsExportable c ∧ i.productName directory c = .ok name ∧
        List.Forall₂ (fun call file => (i.productLayout name c).fileOf call = .ok file)
          (i.writeCalls c radiometry) files := by
  simp only [productFiles, Outcome.bind_eq_ok_iff, exportChannel_eq_ok_iff, segmentFiles,
    Outcome.mapM_eq_ok_iff, pure, Except.pure, Except.ok.injEq, Prod.mk.injEq, writeCalls,
    List.forall₂_cons_left_iff, List.forall₂_map_left_iff]
  constructor
  · intro hgiven
    obtain ⟨c, hc, own, hname, prologue, hprologue, segments, hsegments, rfl, rfl⟩ := hgiven
    exact ⟨c, hc, hname, _, _, hprologue, ⟨_, _, rfl, hsegments, rfl⟩, rfl⟩
  · intro hgiven
    obtain ⟨c, hc, hname, prologue, _, hprologue, hrest, rfl⟩ := hgiven
    obtain ⟨epilogue, segments, hepilogue, hsegments, rfl⟩ := hrest
    have hown : (i.productLayout name c).epilogueFile ⟨.zero⟩ = epilogue := Except.ok.inj hepilogue
    subst hown
    exact ⟨c, hc, name, hname, prologue, hprologue, segments, hsegments, rfl, rfl⟩

/-- An image is written if its files can be made and stored. -/
theorem writeImage_eq_ok_iff :
    (t.writeImage i directory radiometry).2.result = .ok name ↔
      ∃ files, i.productFiles directory radiometry = .ok (name, files) ∧
        (t.storeAll files).2.result = .ok () := by
  unfold FileTree.writeImage
  cases i.productFiles directory radiometry with
  | error e => simp
  | ok made =>
      obtain ⟨own, files⟩ := made
      simp only [Noted.result_bind, Noted.result_note, Outcome.bind_eq_ok_iff, Noted.result_pure,
        Except.ok.injEq, Prod.mk.injEq]
      constructor
      · intro hgiven
        obtain ⟨⟨⟩, hstored, ⟨⟩, ⟨⟩, hsame⟩ := hgiven
        exact ⟨files, ⟨hsame, rfl⟩, hstored⟩
      · intro hgiven
        obtain ⟨_, ⟨hsame, rfl⟩, hstored⟩ := hgiven
        exact ⟨(), hstored, (), trivial, hsame⟩

/-- An image is written by storing the files of its product. -/
theorem writeImage_tree (hfiles : i.productFiles directory radiometry = .ok (name, files)) :
    (t.writeImage i directory radiometry).1 = (t.storeAll files).1 := by
  rw [FileTree.writeImage, hfiles]

namespace IsExportable

theorem toNat_segmentColumns (hi : i.IsExportable c) (name : ProductName) :
    (i.productLayout name c).segmentColumns.toNat = i.columns :=
  UInt16.toNat_ofNat_of_lt' (Nat.lt_succ_of_le hi.columns)

theorem toNat_segmentLines (hi : i.IsExportable c) (name : ProductName) :
    (i.productLayout name c).segmentLines.toNat = segmentHeight i.lines :=
  UInt16.toNat_ofNat_of_lt' (Nat.lt_succ_of_le hi.height)

theorem toNat_plannedEnd (hi : i.IsExportable c) (name : ProductName) :
    (i.productLayout name c).plannedEnd.toNat = i.lines / segmentHeight i.lines :=
  UInt16.toNat_ofNat_of_lt' (Nat.lt_succ_of_le hi.segments)

theorem toNat_bitsPerPixel (hi : i.IsExportable c) (name : ProductName) :
    (i.productLayout name c).bitsPerPixel.toNat = i.data.bitsPerPixel := by
  have hdepth := hi.depth
  exact UInt8.toNat_ofNat_of_lt' (by show _ < 256; omega)

/-- The segments that are planned have all the lines of the image together. -/
theorem plannedLines (hi : i.IsExportable c) (name : ProductName) :
    (i.productLayout name c).plannedEnd.toNat * (i.productLayout name c).segmentLines.toNat =
      i.lines := by
  rw [hi.toNat_plannedEnd, hi.toNat_segmentLines, segmentCount_mul_height]

/-- The layout of an image's product is sound, if the file system takes its paths. -/
theorem isSound (hi : i.IsExportable c) (hname : i.productName directory c = .ok name)
    (hpath : FileTree.checkPath (Path.join directory (name.segmentName 1)) = .ok ())
    (hcolumns : i.columns ≠ 0) (hlines : i.lines ≠ 0) : (i.productLayout name c).IsSound where
  name := by
    obtain ⟨hcheck, rfl⟩ := productName_eq_ok_iff.mp hname
    obtain ⟨hascii, hshort⟩ := Spacecraft.fileName_ofTable i.spacecraft
    exact ⟨hcheck, fun c hc => ProductMember.utf8Size_of_isPlain (.inl (hascii c hc)), hshort, hpath⟩
  channel := hi.lower
  depth := by
    rw [hi.toNat_bitsPerPixel]
    exact hi.depth
  columns := by
    rw [← UInt16.toNat_inj.ne, hi.toNat_segmentColumns]
    exact hcolumns
  lines := by
    rw [← UInt16.toNat_inj.ne, hi.toNat_segmentLines]
    exact Nat.ne_of_gt (segmentHeight_pos i.lines)
  segments := by
    rw [← UInt16.toNat_inj.ne, hi.toNat_plannedEnd]
    exact Nat.ne_of_gt (segmentCount_pos hlines)
  format := (by decide : nativeFormat ≠ 0)

/-- No file of an image is written twice. -/
theorem nodup_writeCalls (hi : i.IsExportable c) (radiometry : Option Radiometry) :
    ((i.writeCalls c radiometry).map WriteCall.member).Nodup := by
  have hsegments : ((List.range (i.lines / segmentHeight i.lines)).map fun segment =>
      ProductMember.segment (.ofNat (segment + 1))).Nodup := by
    refine List.Nodup.map_on ?_ List.nodup_range
    intro a ha b hb hsame
    have hlimit := hi.segments
    rw [segmentFieldLimit] at hlimit
    rw [List.mem_range] at ha hb
    have hnumbers := congrArg UInt16.toNat (ProductMember.segment.inj hsame)
    rw [UInt16.toNat_ofNat', UInt16.toNat_ofNat', Nat.mod_eq_of_lt (by omega),
      Nat.mod_eq_of_lt (by omega)] at hnumbers
    exact Nat.succ.inj hnumbers
  have hmembers : (i.writeCalls c radiometry).map WriteCall.member =
      .prologue :: .epilogue :: (List.range (i.lines / segmentHeight i.lines)).map fun segment =>
        ProductMember.segment (.ofNat (segment + 1)) := by
    rw [writeCalls, List.map_cons, List.map_cons, List.map_map]
    rfl
  rw [hmembers]
  exact List.nodup_cons.mpr ⟨by simp, List.nodup_cons.mpr ⟨by simp, hsegments⟩⟩

/-- Each segment of an image is written with its own samples. -/
theorem lastSamples_writeCalls (hi : i.IsExportable c) (radiometry : Option Radiometry)
    {segment : Nat} (hsegment : segment < i.lines / segmentHeight i.lines) :
    WriteCall.lastSamples (i.writeCalls c radiometry) (.ofNat (segment + 1)) =
      some (i.storedSamples (segmentHeight i.lines) segment) := by
  have hcall : WriteCall.segment (.ofNat (segment + 1))
      (i.storedSamples (segmentHeight i.lines) segment) ∈ i.writeCalls c radiometry :=
    List.mem_cons_of_mem _ (List.mem_cons_of_mem _
      (List.mem_map.mpr ⟨segment, List.mem_range.mpr hsegment, rfl⟩))
  have hlast := WriteCall.last_of_nodup (hi.nodup_writeCalls radiometry) hcall
  rw [WriteCall.member] at hlast
  rw [WriteCall.lastSamples, hlast]
  rfl

/-- The stored picture is the image turned by 180 degrees. -/
theorem sample_stored (hi : i.IsExportable c) (radiometry : Option Radiometry) {column row : Nat}
    (hcolumn : column < i.columns) (hrow : row < i.lines) :
    ∃ samples, WriteCall.lastSamples (i.writeCalls c radiometry)
        (.ofNat (row / segmentHeight i.lines + 1)) = some samples ∧
      samples.getD (row % segmentHeight i.lines * i.columns + column) 0 =
        (i.data.raw (i.columns - 1 - column) (i.lines - 1 - row)).getD 0 % 65536 := by
  have hheight := segmentHeight_pos i.lines
  have hall := segmentCount_mul_height i.lines
  have hsegment : row / segmentHeight i.lines < i.lines / segmentHeight i.lines :=
    (Nat.div_lt_iff_lt_mul hheight).mpr (by omega)
  have hplace : row / segmentHeight i.lines * segmentHeight i.lines +
      row % segmentHeight i.lines = row := Nat.div_add_mod' _ _
  obtain ⟨hindex, hmod, hdiv⟩ := PixelData.place_spec hcolumn (Nat.mod_lt row hheight)
  rw [Nat.mul_comm (segmentHeight i.lines) i.columns] at hindex
  refine ⟨_, hi.lastSamples_writeCalls radiometry hsegment, ?_⟩
  rw [storedSamples, Array.getD_eq_getD_getElem?, Array.getElem?_ofFn, dif_pos hindex,
    Option.getD_some]
  simp only [hmod, hdiv, hplace]

/-- A pixel is looked up opposite to where it comes from. -/
theorem opposite_placeBehind {factor : Int32} (hfactor : factor ≠ Int32.minValue) {size k : Nat}
    (hk : k < size) :
    let place := if -factor < 0 then size - 1 - k else k
    place < size ∧ size - 1 - place = placeBehind factor size k := by
  simp only [Word.neg_lt_zero_iff hfactor, placeBehind]
  split <;> omega

/-- **Each pixel that is decoded is one of the image.**  Turned once when it is written, the picture
is turned back along those sides whose factors are positive. -/
theorem countAt_eq_behind (hi : i.IsExportable c) (radiometry : Option Radiometry)
    (name : ProductName) (hcolumnFactor : i.columnFactor ≠ Int32.minValue)
    (hlineFactor : i.lineFactor ≠ Int32.minValue)
    (hcounts : ∀ x y count, x < i.columns → y < i.lines → i.data.raw x y = some count →
      count < 2 ^ i.data.bitsPerPixel) {x y : Nat} (hx : x < i.columns) (hy : y < i.lines) :
    some ((i.productLayout name c).countAt (WriteCall.lastSamples (i.writeCalls c radiometry)) x y) =
      i.data.raw (placeBehind i.columnFactor i.columns x) (placeBehind i.lineFactor i.lines y) := by
  obtain ⟨hcolumn, hback⟩ := opposite_placeBehind hcolumnFactor hx
  obtain ⟨hrow, hbackLine⟩ := opposite_placeBehind hlineFactor hy
  obtain ⟨samples, hsamples, hsample⟩ := hi.sample_stored radiometry hcolumn hrow
  rw [hback, hbackLine] at hsample
  obtain ⟨count, hraw⟩ := PixelData.exists_raw hi.counts (placeBehind i.columnFactor i.columns x)
    (placeBehind i.lineFactor i.lines y)
  have hfits := hcounts _ _ count (by omega) (by omega) hraw
  have hdepth : 2 ^ i.data.bitsPerPixel ≤ 65536 := Nat.pow_le_pow_right (by decide) hi.depth.2
  rw [hraw, Option.getD_some, Nat.mod_eq_of_lt (Nat.lt_of_lt_of_le hfits hdepth)] at hsample
  have hcolumnFactor : (i.productLayout name c).columnFactor = -i.columnFactor := rfl
  have hlineFactor : (i.productLayout name c).lineFactor = -i.lineFactor := rfl
  simp only [ProductLayout.countAt, hi.plannedLines, hcolumnFactor, hlineFactor]
  simp only [hi.toNat_segmentLines, hi.toNat_segmentColumns, hi.toNat_bitsPerPixel, hsamples,
    hsample]
  rw [Nat.mod_eq_of_lt hfits, hraw]

/-- With positive factors the picture is as it was. -/
theorem countAt_eq (hi : i.IsExportable c) (radiometry : Option Radiometry) (name : ProductName)
    (hcolumnFactor : 0 < i.columnFactor) (hlineFactor : 0 < i.lineFactor)
    (hcounts : ∀ x y count, x < i.columns → y < i.lines → i.data.raw x y = some count →
      count < 2 ^ i.data.bitsPerPixel) {x y : Nat} (hx : x < i.columns) (hy : y < i.lines) :
    some ((i.productLayout name c).countAt (WriteCall.lastSamples (i.writeCalls c radiometry)) x y) =
      i.data.raw x y := by
  rw [hi.countAt_eq_behind radiometry name (Word.ne_minValue_of_pos hcolumnFactor)
    (Word.ne_minValue_of_pos hlineFactor) hcounts hx hy, placeBehind, placeBehind,
    if_pos hcolumnFactor, if_pos hlineFactor]

/-- All segments planned of an image are written. -/
theorem isSome_lastSamples_writeCalls (hi : i.IsExportable c) (radiometry : Option Radiometry)
    (name : ProductName) {index : Nat}
    (hindex : index < (i.productLayout name c).plannedEnd.toNat) :
    (WriteCall.lastSamples (i.writeCalls c radiometry) (.ofNat (index + 1))).isSome := by
  rw [hi.toNat_plannedEnd] at hindex
  rw [hi.lastSamples_writeCalls radiometry hindex]
  rfl

/-- An image with the counts that the files of another hold has the pixels of this other. -/
theorem hasPixelsOf_ofCountAt (hi : i.IsExportable c) (radiometry : Option Radiometry)
    (name : ProductName) (hcolumnFactor : 0 < i.columnFactor) (hlineFactor : 0 < i.lineFactor)
    (hcounts : ∀ x y count, x < i.columns → y < i.lines → i.data.raw x y = some count →
      count < 2 ^ i.data.bitsPerPixel) (gain : Gain) (missingValue : Float32) (frame : Image) :
    HasPixelsOf { frame with
      data := .ofCountAt (i.productLayout name c).segmentColumns.toNat
        ((i.productLayout name c).plannedEnd.toNat * (i.productLayout name c).segmentLines.toNat)
        (i.productLayout name c).bitsPerPixel.toNat gain missingValue
        ((i.productLayout name c).countAt (WriteCall.lastSamples (i.writeCalls c radiometry))) } i where
  columns := hi.toNat_segmentColumns name
  lines := hi.plannedLines name
  raw := by
    intro x y hx hy
    rw [← hi.countAt_eq radiometry name hcolumnFactor hlineFactor hcounts hx hy]
    refine PixelData.raw_ofCountAt ?_ ?_
    · rwa [hi.toNat_segmentColumns]
    · rwa [hi.plannedLines]

/-- **What the files of an image say is what the image says.**  Factors and offsets, which are turned
in the files, are turned back. -/
theorem isKeptBy_frameImage (hi : i.IsExportable c) {product : LocatedProduct}
    {p : Prologue} {o : LocatedProduct.Opened}
    (hlocated : (i.productLayout name c).IsLocated
      (WriteCall.lastSamples (i.writeCalls c radiometry)) product)
    (hopened : (i.productLayout name c).IsOpened t product p o) (htime : p.acquired = i.time)
    (hcolumnFactor : 0 < i.columnFactor) (hlineFactor : 0 < i.lineFactor)
    (hcounts : ∀ x y count, x < i.columns → y < i.lines → i.data.raw x y = some count →
      count < 2 ^ i.data.bitsPerPixel) (gain : Gain) (missingValue : Float32) :
    i.IsKeptBy { product.frameImage o with
      data := .ofCountAt (i.productLayout name c).segmentColumns.toNat
        ((i.productLayout name c).plannedEnd.toNat * (i.productLayout name c).segmentLines.toNat)
        (i.productLayout name c).bitsPerPixel.toNat gain missingValue
        ((i.productLayout name c).countAt (WriteCall.lastSamples (i.writeCalls c radiometry)))
      x0 := 0
      y0 := 0 } := by
  have hframe : o.reader.frame = (i.productLayout name c).frame := by
    rw [hopened.reader]
    rfl
  have hfromEast : (i.productLayout name c).frame.fromEast = true :=
    decide_eq_true (Word.neg_lt_zero_of_pos hcolumnFactor)
  have hfromSouth : (i.productLayout name c).frame.fromSouth = true :=
    decide_eq_true (Word.neg_lt_zero_of_pos hlineFactor)
  have hcolumns : (i.productLayout name c).frame.columns = i.columns := hi.toNat_segmentColumns name
  have hlines : (i.productLayout name c).frame.lines = i.lines := by
    rw [← hi.plannedLines name]
    exact ProductLayout.lines_frame _
  have hpixels := hi.hasPixelsOf_ofCountAt radiometry name hcolumnFactor hlineFactor hcounts gain
    missingValue (product.frameImage o)
  constructor
  case columns => exact hpixels.columns
  case lines => exact hpixels.lines
  case raw => exact hpixels.raw
  case depth => exact hi.toNat_bitsPerPixel name
  case columnFactor =>
    show o.navigation.columnFactor.abs = _
    rw [hopened.navigation]
    exact Word.abs_neg_of_pos hcolumnFactor
  case lineFactor =>
    show o.navigation.lineFactor.abs = _
    rw [hopened.navigation]
    exact Word.abs_neg_of_pos hlineFactor
  case columnOffset =>
    show LocatedProduct.frameOffset o.reader.frame.fromEast o.reader.frame.columns
      o.navigation.columnOffset = _
    rw [hframe, hfromEast, hcolumns, hopened.navigation]
    exact Word.sub_sub_self _ _
  case lineOffset =>
    show LocatedProduct.frameOffset o.reader.frame.fromSouth o.reader.frame.lines
      o.navigation.lineOffset = _
    rw [hframe, hfromSouth, hlines, hopened.navigation]
    exact Word.sub_sub_self _ _
  case channelNumber =>
    show o.identification.channel = _
    rw [hopened.number]
    exact Channel.number_of_ofNumber? hi.channel
  case time =>
    show o.prologue.acquired = _
    rw [hopened.prologue, htime]
  case quality =>
    show (if product.presentCount = product.plannedCount then Quality.complete else _) = _
    rw [if_pos (hlocated.presentCount_eq fun index hindex =>
      hi.isSome_lastSamples_writeCalls radiometry name hindex)]
  case spacecraft =>
    show Spacecraft.toTable o.identification.spacecraft = _
    rw [hopened.spacecraft]
    exact Spacecraft.toTable_ofTable i.spacecraft

/-- **An image that was written is decoded**, if a search comes through its directory and counts are
kept. -/
theorem decode_kept (hi : i.IsExportable c) (hsound : (i.productLayout name c).IsSound)
    (hsearchable : Path.isSearchable name.directory) {p : Prologue} (htime : p.acquired = i.time)
    (hholds : t.HoldsProduct place (i.productLayout name c) p
      (WriteCall.lastSamples (i.writeCalls c radiometry)))
    (hlines : i.lines ≠ 0) (hcolumnFactor : 0 < i.columnFactor) (hlineFactor : 0 < i.lineFactor)
    (hcounts : ∀ x y count, x < i.columns → y < i.lines → i.data.raw x y = some count →
      count < 2 ^ i.data.bitsPerPixel)
    {options : DecodeOptions} (hcancelled : options.cancelled = false) {k : Calibration}
    (hkeeps : k.keepsCounts)
    (hcalibration : ∀ o product, (i.productLayout name c).IsOpened t product p o →
      (LocatedProduct.calibration o options).result = .ok k) :
    ∃ back, (t.decode name { options with area := none, geoArea := none }).result = .ok back ∧
      i.IsKeptBy back ∧ back.data.gain = k.gain := by
  have hplanned : 0 < (i.productLayout name c).plannedEnd.toNat := by
    rw [hi.toNat_plannedEnd]
    exact segmentCount_pos hlines
  have hfirst := hi.isSome_lastSamples_writeCalls radiometry name hplanned
  obtain ⟨product, o, hlocated, hopened, hdecode⟩ := hholds.decode_counts hsound hsearchable
    ⟨1, Nat.le_refl 1, hplanned, hfirst⟩ hcancelled hkeeps hcalibration
  exact ⟨_, hdecode, hi.isKeptBy_frameImage hlocated hopened htime hcolumnFactor hlineFactor hcounts
    k.gain options.missingValue, rfl⟩

/-- The layout of an image that was written is sound. -/
theorem isSound_of_storeAll (hi : i.IsExportable c) (hname : i.productName directory c = .ok name)
    (hfiles : List.Forall₂ (fun call file => (i.productLayout name c).fileOf call = .ok file)
      (i.writeCalls c radiometry) files)
    (hstored : (t.storeAll files).2.result = .ok ()) (hcolumns : i.columns ≠ 0)
    (hlines : i.lines ≠ 0) : (i.productLayout name c).IsSound := by
  obtain ⟨hcheck, hown⟩ := productName_eq_ok_iff.mp hname
  obtain ⟨file, hfile, hpath⟩ := ProductLayout.checkPath_of_storeAll hfiles hstored
    (segment_mem_writeCalls hlines c radiometry)
  have hdepth := hi.depth
  rw [← hi.toNat_bitsPerPixel name] at hdepth
  obtain ⟨hwhere, -⟩ := @ProductLayout.segmentFile_spec (i.productLayout name c) 1 _ file hcheck
    hdepth hfile
  have hdirectory : name.directory = directory := by rw [hown]
  rw [hwhere, ProductLayout.path, ProductName.memberName_segment] at hpath
  have hpath : FileTree.checkPath (Path.join name.directory (name.segmentName 1)) = .ok () := hpath
  rw [hdirectory] at hpath
  exact hi.isSound hname hpath hcolumns hlines

/-- The calls that write an image may be made if its time can be coded. -/
theorem fits_writeCalls (hi : i.IsExportable c) (name : ProductName)
    (radiometry : Option Radiometry) {code : DayCode} (hcode : i.time.toCode = .ok code) :
    ∀ call ∈ i.writeCalls c radiometry, call.Fits (i.productLayout name c) := by
  intro call hcall
  simp only [writeCalls, List.mem_cons, List.mem_map] at hcall
  rcases hcall with rfl | rfl | ⟨segment, -, rfl⟩
  · exact ⟨code, hcode⟩
  · trivial
  · refine ⟨?_, code, hcode⟩
    rw [ProductLayout.segmentPixels, hi.toNat_segmentColumns, hi.toNat_segmentLines]
    exact Array.size_ofFn

/-- **All files of an image can be made** if its time can be coded. -/
theorem exists_files (hi : i.IsExportable c) (name : ProductName) (radiometry : Option Radiometry)
    {code : DayCode} (hcode : i.time.toCode = .ok code) :
    ∃ files, List.Forall₂ (fun call file => (i.productLayout name c).fileOf call = .ok file)
      (i.writeCalls c radiometry) files := by
  have hfits := hi.fits_writeCalls name radiometry hcode
  obtain ⟨files, hmade, -⟩ := Outcome.exists_mapM fun call hcall =>
    ProductLayout.exists_fileOf_of_fits (hfits call hcall)
  exact ⟨files, Outcome.mapM_eq_ok_iff.mp hmade⟩

/-- An image that can be written is written into an empty directory. -/
theorem writeImage_eq_ok (hi : i.IsExportable c) (hname : i.productName directory c = .ok name)
    (hsound : (i.productLayout name c).IsSound) {code : DayCode} (hcode : i.time.toCode = .ok code)
    (hwf : t.WellFormed) (hfolder : t.IsFolder directory place) (hempty : t.children place = [])
    (radiometry : Option Radiometry) :
    (t.writeImage i directory radiometry).2.result = .ok name := by
  obtain ⟨-, hown⟩ := productName_eq_ok_iff.mp hname
  have hdirectory : name.directory = directory := by rw [hown]
  rw [← hdirectory] at hfolder
  obtain ⟨files, hfiles⟩ := hi.exists_files name radiometry hcode
  have hstart := ProductLayout.hasWritten_nil (l := i.productLayout name c) hwf hfolder hempty
  obtain ⟨hstored, -⟩ := hstart.storeAll hsound (fun call hcall => by cases hcall) hfiles
  exact writeImage_eq_ok_iff.mpr
    ⟨files, productFiles_eq_ok_iff.mpr ⟨c, hi, hname, hfiles⟩, hstored⟩

end IsExportable

/-- What a directory holds after an image was written into it. -/
theorem holdsProduct_of_writeImage (hwf : t.WellFormed) (hfolder : t.IsFolder directory place)
    (hempty : t.children place = []) (hcolumns : i.columns ≠ 0) (hlines : i.lines ≠ 0)
    (hyear : epochYear ≤ i.time.year)
    (hwritten : (t.writeImage i directory radiometry).2.result = .ok name) :
    name.directory = directory ∧ ∃ c, i.IsExportable c ∧ (i.productLayout name c).IsSound ∧
      (t.writeImage i directory radiometry).1.HoldsProduct place (i.productLayout name c)
        ((i.prologue (radiometry.getD (i.ownRadiometry c))).readAt i.time)
        (WriteCall.lastSamples (i.writeCalls c radiometry)) := by
  obtain ⟨files, hproduct, hstored⟩ := writeImage_eq_ok_iff.mp hwritten
  obtain ⟨c, hi, hname, hfiles⟩ := productFiles_eq_ok_iff.mp hproduct
  obtain ⟨-, hown⟩ := productName_eq_ok_iff.mp hname
  have hdirectory : name.directory = directory := by rw [hown]
  have hsound := hi.isSound_of_storeAll hname hfiles hstored hcolumns hlines
  rw [← hdirectory] at hfolder
  have hstart := ProductLayout.hasWritten_nil (l := i.productLayout name c) hwf hfolder hempty
  obtain ⟨-, hdone⟩ := hstart.storeAll hsound (fun call hcall => by cases hcall) hfiles
  rw [List.nil_append, ← writeImage_tree hproduct] at hdone
  have hfits : ∀ call ∈ i.writeCalls c radiometry, call.Fits (i.productLayout name c) := by
    intro call hcall
    obtain ⟨file, hfile, -⟩ := ProductLayout.checkPath_of_storeAll hfiles hstored hcall
    exact ProductLayout.fits_of_fileOf hfile
  obtain ⟨p, read, hmem, hread, hholds⟩ := hdone.holdsProduct hsound hfits
    ⟨_, prologue_mem_writeCalls_iff.mpr rfl⟩
  rw [prologue_mem_writeCalls_iff] at hmem
  subst hmem
  rw [hread hyear] at hholds
  exact ⟨hdirectory, c, hi, hsound, hholds⟩

/-- The calibration of an image's own product is the gain of the image, if its channel is
reflective. -/
theorem calibration_own {o : LocatedProduct.Opened} {product : LocatedProduct} {read : UtcTime}
    {options : DecodeOptions} (hreflective : c.isReflective) (hcalibrate : options.calibrate)
    (hopened : (i.productLayout name c).IsOpened t product
      ((i.prologue (i.ownRadiometry c)).readAt read) o) :
    (LocatedProduct.calibration o options).result = .ok (.linear i.data.gain) := by
  have hchannel : o.channel = c := hopened.channel
  have hgain : o.prologue.radiometry.gain c = i.data.gain := by
    rw [hopened.prologue]
    show (Vector.ofFn fun index => if index = c.index then i.data.gain else .identity)[c.index] = _
    rw [Fin.getElem_fin, Vector.getElem_ofFn, if_pos rfl]
  rw [LocatedProduct.calibration, if_pos hcalibrate]
  simp only [Noted.result_bind, Noted.result_noteIf, Outcome.ok_bind, Noted.result_lift,
    Calibration.ofChannel, hchannel, if_pos hreflective, hgain, Outcome.ok_mapError]

/-- **An image that is written as a product comes back.**  Let an image with pixels be written
into an empty directory, with counts that its bits can hold, positive factors and a time since the
epoch of the codes.

If a search comes through the directory, decoding the product without calibration gives an image
that keeps all that the first one says.  If besides the channel is reflective and no radiometry
was given, decoding with calibration does so too, with the gain of the image.  If no search comes
through the directory, nothing of the product is found. -/
theorem written_image_comes_back (hwf : t.WellFormed) (hfolder : t.IsFolder directory place)
    (hempty : t.children place = []) (hcolumns : i.columns ≠ 0) (hlines : i.lines ≠ 0)
    (hcolumnFactor : 0 < i.columnFactor) (hlineFactor : 0 < i.lineFactor)
    (hcounts : ∀ x y count, x < i.columns → y < i.lines → i.data.raw x y = some count →
      count < 2 ^ i.data.bitsPerPixel)
    (hyear : epochYear ≤ i.time.year)
    (hwritten : (t.writeImage i directory radiometry).2.result = .ok name)
    (missingValue : Float32) :
    if Path.isSearchable directory then
      (∃ back, ((t.writeImage i directory radiometry).1.decode name
          (.raw missingValue)).result = .ok back ∧ i.IsKeptBy back) ∧
      ∀ c, i.channel? = some c → c.isReflective → radiometry = none →
        ∃ back, ((t.writeImage i directory radiometry).1.decode name
            { DecodeOptions.raw missingValue with calibrate := true }).result = .ok back ∧
          i.IsKeptBy back ∧ back.data.gain = i.data.gain
    else
      ((t.writeImage i directory radiometry).1.decode name (.raw missingValue)).result =
        .error (.locate (.noSuchFile (name.pattern .prologue))) := by
  obtain ⟨hdirectory, c, hi, hsound, hholds⟩ := holdsProduct_of_writeImage hwf hfolder hempty
    hcolumns hlines hyear hwritten
  by_cases hsearchable : Path.isSearchable directory
  · rw [if_pos hsearchable]
    rw [← hdirectory] at hsearchable
    constructor
    · have hidentity : ∀ o product, (i.productLayout name c).IsOpened
          (t.writeImage i directory radiometry).1 product
          ((i.prologue (radiometry.getD (i.ownRadiometry c))).readAt i.time) o →
            (LocatedProduct.calibration o (.raw missingValue)).result =
              .ok Calibration.identity := fun _ _ _ => rfl
      obtain ⟨back, hdecode, hkept, -⟩ := hi.decode_kept hsound hsearchable rfl hholds hlines
        hcolumnFactor hlineFactor hcounts rfl rfl hidentity
      exact ⟨back, hdecode, hkept⟩
    · intro own hown hreflective hnone
      subst hnone
      have hsame : own = c := Option.some.inj (hown.symm.trans hi.channel)
      subst hsame
      have hlinear : ∀ o product, (i.productLayout name own).IsOpened
          (t.writeImage i directory none).1 product
          ((i.prologue (i.ownRadiometry own)).readAt i.time) o →
            (LocatedProduct.calibration o
              { DecodeOptions.raw missingValue with calibrate := true }).result =
                .ok (.linear i.data.gain) :=
        fun o product hopened => calibration_own hreflective rfl hopened
      obtain ⟨back, hdecode, hkept, hgain⟩ := hi.decode_kept hsound hsearchable rfl hholds hlines
        hcolumnFactor hlineFactor hcounts rfl rfl hlinear
      exact ⟨back, hdecode, hkept, hgain⟩
  · rw [if_neg hsearchable]
    rw [← hdirectory, Bool.not_eq_true] at hsearchable
    exact hholds.decode_astray hsound.name hsearchable _

/-- An image of four pixels in a reflective channel. -/
def fourPixels : Image where
  time := ⟨2006, 11, 14, 12, 0, 0⟩
  spacecraft := 56
  channelNumber := 1
  longitude := .zero
  columnFactor := 13642337
  lineFactor := 13642337
  columnOffset := 1
  lineOffset := 1
  x0 := 0
  y0 := 0
  quality := .complete
  history := []
  data := ⟨2, 2, ⟨.one, .one⟩, 10, false, notANumber, .counts .bits16 #[1, 2, 3, 4]⟩

/-- The name of the product of the four pixels. -/
def fourPixelsName (directory : String) : ProductName :=
  ⟨directory, "H", "MSG2", "VIS006", "200611141200"⟩

theorem isExportable_fourPixels : fourPixels.IsExportable .vis006 where
  channel := by decide
  lower := Channel.noConfusion
  counts := rfl
  depth := ⟨by show 1 ≤ 10; decide, by show 10 ≤ 16; decide⟩
  columns := (by decide : 2 ≤ segmentFieldLimit)
  height := (by decide : segmentHeight 2 ≤ segmentFieldLimit)
  segments := (by decide : 2 / segmentHeight 2 ≤ segmentFieldLimit)

theorem productName_fourPixels (directory : String) :
    fourPixels.productName directory .vis006 = .ok (fourPixelsName directory) := by
  have hchannel : NamePart.productId2.check "VIS006" = .ok () :=
    NamePart.check_eq_ok_iff.mpr ⟨by decide, by decide, by simp [NamePart.isForbidden]⟩
  have hfile : Spacecraft.fileName (Spacecraft.ofTable 56) = "MSG2" := by cbv
  have htime : UtcTime.timing ⟨2006, 11, 14, 12, 0, 0⟩ = "200611141200" := by cbv
  refine productName_eq_ok_iff.mpr ⟨ProductLayout.check_sampleName directory hchannel, ?_⟩
  simp only [fourPixels, fourPixelsName, hfile, htime, Channel.name]

/-- The four pixels are written into an empty directory. -/
theorem writeImage_fourPixels {directory : String}
    (hpath : FileTree.checkPath (Path.join directory
      ((fourPixelsName directory).segmentName 1)) = .ok ())
    (hfolder : ProductLayout.oneDirectory.IsFolder directory place)
    (hempty : ProductLayout.oneDirectory.children place = []) :
    (ProductLayout.oneDirectory.writeImage fourPixels directory radiometry).2.result =
      .ok (fourPixelsName directory) := by
  have hcode : UtcTime.toCode ⟨2006, 11, 14, 12, 0, 0⟩ = .ok ⟨17849, 43200000⟩ := by cbv
  have hsound := isExportable_fourPixels.isSound (productName_fourPixels directory) hpath
    (by decide) (by decide)
  exact isExportable_fourPixels.writeImage_eq_ok (productName_fourPixels directory) hsound hcode
    ProductLayout.wellFormed_oneDirectory hfolder hempty radiometry

theorem counts_fourPixels : ∀ x y count, x < fourPixels.columns → y < fourPixels.lines →
    fourPixels.data.raw x y = some count → count < 2 ^ fourPixels.data.bitsPerPixel := by
  have hall : ∀ x < 2, ∀ y < 2, (fourPixels.data.raw x y).all (· < 2 ^ 10) := by decide
  intro x y count hx hy hraw
  have hfits := hall x hx y hy
  rw [hraw] at hfits
  exact of_decide_eq_true hfits

/-- From `d` the four pixels come back with their gain; into `.//d`, which is the same directory,
they are written but not found. -/
theorem fourPixels_in_two_directories :
    (∃ back, ((ProductLayout.oneDirectory.writeImage fourPixels "d" none).1.decode
        (fourPixelsName "d") { DecodeOptions.raw notANumber with calibrate := true }).result =
          .ok back ∧ fourPixels.IsKeptBy back ∧ back.data.gain = ⟨.one, .one⟩) ∧
    ((ProductLayout.oneDirectory.writeImage fourPixels ".//d" none).1.decode
        (fourPixelsName ".//d") (.raw notANumber)).result =
      .error (.locate (.noSuchFile ((fourPixelsName ".//d").pattern .prologue))) := by
  constructor
  · have hback := @written_image_comes_back fourPixels _ "d" none ProductLayout.oneDirectory
      ["w", "d"] ProductLayout.wellFormed_oneDirectory ⟨rfl, rfl⟩ rfl (by decide) (by decide)
      (by decide) (by decide) counts_fourPixels (by decide)
      (writeImage_fourPixels rfl ⟨rfl, rfl⟩ rfl) notANumber
    rw [if_pos (by decide)] at hback
    exact hback.2 .vis006 (by decide) rfl rfl
  · have hlost := @written_image_comes_back fourPixels _ ".//d" none ProductLayout.oneDirectory
      ["w", "d"] ProductLayout.wellFormed_oneDirectory ⟨rfl, rfl⟩ rfl (by decide) (by decide)
      (by decide) (by decide) counts_fourPixels (by decide)
      (writeImage_fourPixels rfl ⟨rfl, rfl⟩ rfl) notANumber
    rwa [if_neg (by decide)] at hlost

end Image

end SeviriImagery
