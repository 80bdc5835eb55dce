import SeviriImagery.Proofs.Product.Apart
import SeviriImagery.Proofs.Product.Area
import SeviriImagery.Proofs.Product.Exported
import SeviriImagery.Proofs.Product.Opened
import SeviriImagery.Proofs.Product.Stored

/-!
# Images exported one after the other

Images may be exported one after the other into one directory, some of them perhaps under the same
name (`FileTree.exportAll`).  Products under different names have at most their prologue and their
epilogue in common (`Export.IsAccepted.of_finds`), and of these any one will do.  Under one name the
segments of an image replace those of the one before.  But they replace no more than they are: where
an image had more segments, the last ones of them stay, and as they say how many segments are
planned, a product with all of them is found (`FileTree.HoldsExports.le_plannedCount`).

So an image comes back just if no image with more segments was exported under its name before
(`FileTree.last_image_comes_back`).
-/

namespace SeviriImagery

/-- Texts that do not end with an underscore are told from what they are filled up to. -/
theorem Text.underscorePadded_inj {a b : String} {width : Nat} (ha : a.toList.getLast? ≠ some '_')
    (hb : b.toList.getLast? ≠ some '_')
    (hsame : underscorePadded a width = underscorePadded b width) : a = b := by
  have hback : ∀ text : String, text.toList.getLast? ≠ some '_' →
      (underscorePadded text width).toList.reverse.dropWhile (· == '_') = text.toList.reverse := by
    intro text htext
    rw [toList_underscorePadded, List.reverse_append, List.reverse_replicate,
      List.dropWhile_append_of_pos fun c hc => by simp [List.eq_of_mem_replicate hc]]
    rw [List.getLast?_eq_head?_reverse] at htext
    cases hchars : text.toList.reverse with
    | nil => rfl
    | cons c rest =>
        rw [hchars, List.head?_cons] at htext
        exact List.dropWhile_cons_of_neg (by simpa using htext)
  have hchars := hback a ha
  rw [hsame, hback b hb] at hchars
  exact String.toList_inj.mp (List.reverse_injective hchars).symm

/-- What is asked of an image that is exported: it has pixels, its factors are positive, and its bits
hold its counts. -/
structure Image.IsRegular (i : Image) : Prop where
  columns : i.columns ≠ 0
  lines : i.lines ≠ 0
  columnFactor : 0 < i.columnFactor
  lineFactor : 0 < i.lineFactor
  counts : ∀ x y count, x < i.columns → y < i.lines → i.data.raw x y = some count →
    count < 2 ^ i.data.bitsPerPixel

/-- An image that is exported into a directory, perhaps with a radiometry that is given. -/
structure Export where
  image : Image
  directory : String
  radiometry : Option Radiometry

namespace Export

/-- The channel of an image.  An image of an unknown channel cannot be exported, and the
high-resolution channel, of which this is true as well, stands for it. -/
def channel (e : Export) : Channel := e.image.channel?.getD .hrv

/-- The name of the image's product if its directory is told in this way. -/
def nameIn (e : Export) (directory : String) : ProductName :=
  ⟨directory, "H", Spacecraft.fileName (Spacecraft.ofTable e.image.spacecraft), e.channel.name,
    e.image.time.timing⟩

/-- The name under which the image is exported. -/
def name (e : Export) : ProductName := e.nameIn e.directory

/-- What the files of the image's product have in common. -/
def layoutIn (e : Export) (directory : String) : ProductLayout :=
  e.image.productLayout (e.nameIn directory) e.channel

/-- The calls that write the image. -/
def calls (e : Export) : List WriteCall := e.image.writeCalls e.channel e.radiometry

/-- The files that are written of the image. -/
def writes (e : Export) : List ProductWrite :=
  e.calls.map (ProductWrite.mk (e.layoutIn e.directory))

/-- The segments of the image. -/
def segmentCount (e : Export) : Nat := e.image.lines / Image.segmentHeight e.image.lines

/-- The image is exported under a name, in whatever way its directory is told. -/
def IsUnder (e : Export) (name : ProductName) : Prop := e.nameIn name.directory = name

instance (e : Export) (name : ProductName) : Decidable (e.IsUnder name) :=
  inferInstanceAs (Decidable (_ = _))

/-- An image that can be exported: each of its files can be made. -/
structure IsAccepted (e : Export) : Prop where
  exportable : e.image.IsExportable e.channel
  sound : (e.layoutIn e.directory).IsSound
  made : ∀ call ∈ e.calls, ∃ file, (e.layoutIn e.directory).fileOf call = .ok file

variable {e a b : Export} {t : FileTree} {place : Place} {name : ProductName}
  {writes : List ProductWrite} {sequence : UInt16} {samples : Array Nat} {directory : String}

/-- An image that was exported could be. -/
theorem isAccepted_of_writeImage (hcolumns : e.image.columns ≠ 0) (hlines : e.image.lines ≠ 0)
    (hwritten : (t.writeImage e.image e.directory e.radiometry).2.result = .ok name) :
    e.IsAccepted := by
  obtain ⟨files, hproduct, hstored⟩ := Image.writeImage_eq_ok_iff.mp hwritten
  obtain ⟨c, hi, hname, hfiles⟩ := Image.productFiles_eq_ok_iff.mp hproduct
  have hchannel : e.channel = c := by rw [channel, hi.channel, Option.getD_some]
  have hown : name = e.name := by
    rw [(Image.productName_eq_ok_iff.mp hname).2, Export.name, nameIn, hchannel]
  subst hchannel hown
  refine ⟨hi, hi.isSound_of_storeAll hname hfiles hstored hcolumns hlines, fun call hcall => ?_⟩
  obtain ⟨file, hfile, -⟩ := ProductLayout.checkPath_of_storeAll hfiles hstored hcall
  exact ⟨file, hfile⟩

/-- Files do not say how their directory is told. -/
theorem holdsSegment_layoutIn {bytes : List UInt8}
    (hholds : (e.layoutIn e.directory).HoldsSegment sequence samples bytes) (directory : String) :
    (e.layoutIn directory).HoldsSegment sequence samples bytes := by
  obtain ⟨header, data, hread, hdescribes, hunpack⟩ := hholds
  exact ⟨header, data, hread, ⟨hdescribes.fileType, hdescribes.imageStructure,
    hdescribes.navigation, hdescribes.identification⟩, hunpack⟩

namespace IsAccepted

/-- The directory of an export has no part in whether its name is one. -/
theorem check (ha : a.IsAccepted) (directory : String) : (a.nameIn directory).check = .ok () :=
  ha.sound.name.check

/-- **An image that can be exported is written** into a directory in which nothing but files of
products stands, and its files replace those that were there under their names. -/
theorem writeImage (ha : a.IsAccepted) (hstored : t.HasStored place writes)
    (hfolder : t.IsFolder a.directory place) :
    (t.writeImage a.image a.directory a.radiometry).2.result = .ok a.name ∧
      (t.writeImage a.image a.directory a.radiometry).1.HasStored place (writes ++ a.writes) ∧
        (t.writeImage a.image a.directory a.radiometry).1.Extends t := by
  obtain ⟨files, hmade, -⟩ := Outcome.exists_mapM ha.made
  have hfiles := Outcome.mapM_eq_ok_iff.mp hmade
  obtain ⟨hresult, hnext, hextends⟩ := hstored.storeAll ha.sound hfolder hfiles
  have hname : a.image.productName a.directory a.channel = .ok a.name :=
    Image.productName_eq_ok_iff.mpr ⟨ha.sound.name.check, rfl⟩
  have hproduct : a.image.productFiles a.directory a.radiometry = .ok (a.name, files) :=
    Image.productFiles_eq_ok_iff.mpr ⟨a.channel, ha.exportable, hname, hfiles⟩
  rw [Image.writeImage_tree hproduct]
  exact ⟨Image.writeImage_eq_ok_iff.mpr ⟨files, hproduct, hresult⟩, hnext, hextends⟩

/-- Products whose files run into each other agree in their parts. -/
theorem parts_of_sharesFiles {kind : FileKind} {other : String}
    (hshares : ProductName.SharesFiles kind (a.nameIn directory) (b.nameIn other)) :
    (a.nameIn directory).productId1 = (b.nameIn other).productId1 ∧
      (kind = .segment → (a.nameIn directory).productId2 = (b.nameIn other).productId2) ∧
      (a.nameIn directory).timing = (b.nameIn other).timing := by
  obtain ⟨-, hfirst, hsecond, htiming⟩ := hshares
  have hsatellite : ∀ id, (Spacecraft.fileName (Spacecraft.ofTable id)).toList.getLast? ≠
      some '_' := by
    intro id hlast
    have hplain := (Spacecraft.fileName_ofTable id).1 '_' (List.mem_of_getLast? hlast)
    revert hplain
    decide
  have hchannel : ∀ c : Channel, c.name.toList.getLast? ≠ some '_' := by
    intro c
    cases c <;> decide
  exact ⟨Text.underscorePadded_inj (hsatellite _) (hsatellite _) hfirst,
    fun hkind => Text.underscorePadded_inj (hchannel _) (hchannel _) (hsecond hkind), htiming⟩

/-- **The files of one image that are found under the name of another** have names that the other's
files have too, and a segment among them is one of an image under this name. -/
theorem of_finds (ha : a.IsAccepted) (hb : b.IsAccepted) {kind : FileKind} {m : ProductMember}
    (hfinds : (b.nameIn directory).Finds kind (a.name.memberName m)) :
    m.kind = kind ∧ a.name.memberName m = (b.nameIn directory).memberName m ∧
      (kind = .segment → a.IsUnder (b.nameIn directory)) := by
  have hself : a.name.Finds m.kind (a.name.memberName m) := ha.sound.name.finds_memberName m
  obtain ⟨hkind, hshares⟩ :=
    (ProductName.exists_common_file_iff ha.sound.name.check (hb.check directory)).mp
      ⟨_, hself, hfinds⟩
  obtain ⟨hfirst, hsecond, htiming⟩ := parts_of_sharesFiles hshares
  have hidentifier : (a.nameIn a.directory).identifierFor m.kind =
      (b.nameIn directory).identifierFor m.kind := by
    cases hm : m.kind with
    | segment => exact hsecond hm
    | prologue => rfl
    | epilogue => rfl
  have hresolution : (a.nameIn a.directory).resolution = (b.nameIn directory).resolution := rfl
  refine ⟨hkind, ?_, fun hsegment => ?_⟩
  · rw [Export.name, ProductName.memberName, ProductName.memberName, ProductName.fileName,
      ProductName.fileName, hidentifier, hresolution, hfirst, htiming]
  · have hsecond := hsecond (hkind.trans hsegment)
    exact ProductName.mk.injEq .. |>.mpr ⟨rfl, rfl, hfirst, hsecond, htiming⟩

/-- The segments of an image are numbered from one on. -/
theorem segment_mem_calls (ha : a.IsAccepted) (hcall : .segment sequence samples ∈ a.calls) :
    1 ≤ sequence.toNat ∧ sequence.toNat ≤ a.segmentCount := by
  have hlimit := ha.exportable.segments
  rw [segmentFieldLimit] at hlimit
  simp only [calls, Image.writeCalls, List.mem_cons, reduceCtorEq, false_or, List.mem_map,
    List.mem_range] at hcall
  obtain ⟨segment, hsegment, hsame⟩ := hcall
  cases hsame
  rw [UInt16.toNat_ofNat', Nat.mod_eq_of_lt (by omega)]
  exact ⟨Nat.le_add_left 1 segment, hsegment⟩

/-- Each segment of an image is written. -/
theorem exists_lastSamples (ha : a.IsAccepted) (sequence : UInt16) (hone : 1 ≤ sequence.toNat)
    (hlast : sequence.toNat ≤ a.segmentCount) :
    ∃ samples, WriteCall.lastSamples a.calls sequence = some samples := by
  have hsegment : sequence.toNat - 1 < a.segmentCount := by omega
  have hsamples := ha.exportable.lastSamples_writeCalls a.radiometry hsegment
  rw [Nat.sub_add_cancel hone, UInt16.ofNat_toNat] at hsamples
  exact ⟨_, hsamples⟩

end IsAccepted

end Export

/-- Exports images one after the other. -/
def FileTree.exportAll (t : FileTree) : List Export → FileTree × List (Except Error ProductName)
  | [] => (t, [])
  | e :: rest =>
      let (next, outcome) := t.writeImage e.image e.directory e.radiometry
      let (last, outcomes) := next.exportAll rest
      (last, outcome.result :: outcomes)

namespace FileTree

variable {t : FileTree} {place : Place} {exports : List Export} {writes : List ProductWrite}

/-- Images with pixels that were all exported could be. -/
theorem isAccepted_of_exportAll
    (hpixels : ∀ e ∈ exports, e.image.columns ≠ 0 ∧ e.image.lines ≠ 0)
    (hall : ∀ outcome ∈ (t.exportAll exports).2, ∃ name, outcome = .ok name) :
    ∀ e ∈ exports, e.IsAccepted := by
  induction exports generalizing t with
  | nil => exact fun e he => by cases he
  | cons first rest ih =>
      rw [exportAll, List.forall_mem_cons] at hall
      rw [List.forall_mem_cons] at hpixels ⊢
      obtain ⟨⟨name, hname⟩, hrest⟩ := hall
      exact ⟨Export.isAccepted_of_writeImage hpixels.1.1 hpixels.1.2 hname, ih hpixels.2 hrest⟩

/-- **Images that can be exported are**, one after the other. -/
theorem exportAll_accepted (hstored : t.HasStored place writes)
    (hfolder : ∀ e ∈ exports, t.IsFolder e.directory place)
    (haccepted : ∀ e ∈ exports, e.IsAccepted) :
    (t.exportAll exports).2 = exports.map (fun e => .ok e.name) ∧
      (t.exportAll exports).1.HasStored place (writes ++ exports.flatMap Export.writes) ∧
        (t.exportAll exports).1.Extends t := by
  induction exports generalizing t writes with
  | nil =>
      rw [List.flatMap_nil, List.append_nil]
      exact ⟨rfl, hstored, .refl t⟩
  | cons first rest ih =>
      rw [List.forall_mem_cons] at hfolder haccepted
      obtain ⟨hresult, hnext, hextends⟩ := haccepted.1.writeImage hstored hfolder.1
      obtain ⟨hresults, hend, hgrown⟩ := ih hnext
        (fun e he => isFolder_of_extends hextends (hfolder.2 e he)) haccepted.2
      rw [List.append_assoc, ← List.flatMap_cons] at hend
      refine ⟨?_, hend, hgrown.trans hextends⟩
      simp only [exportAll, hresult, hresults, List.map_cons]

end FileTree

namespace Export

/-- The last of some exports under a name. -/
def lastUnder (exports : List Export) (name : ProductName) : Option Export :=
  exports.reverse.find? fun e => e.IsUnder name

variable {exports : List Export} {e last : Export} {name : ProductName}

theorem exists_lastUnder (he : e ∈ exports) (hunder : e.IsUnder name) :
    ∃ last, lastUnder exports name = some last := by
  rw [← Option.isSome_iff_exists, lastUnder, List.find?_isSome]
  exact ⟨e, List.mem_reverse.mpr he, decide_eq_true hunder⟩

theorem lastUnder_spec (hlast : lastUnder exports name = some last) :
    last.IsUnder name ∧ ∃ before after, exports = before ++ last :: after ∧
      ∀ e ∈ after, ¬e.IsUnder name := by
  obtain ⟨hunder, after, before, hsplit, hafter⟩ := List.find?_eq_some_iff_append.mp hlast
  refine ⟨of_decide_eq_true hunder, before.reverse, after.reverse, ?_, fun e he => ?_⟩
  · rw [← List.reverse_reverse exports, hsplit]
    simp
  · simpa using hafter e (List.mem_reverse.mp he)

end Export

namespace FileTree

/-- A directory in which images were exported one after the other, the last one of which under its
name, with the directory told in some way, is known. -/
structure HoldsExports (t : FileTree) (place : Place) (exports : List Export) (last : Export)
    (directory : String) : Prop where
  stored : t.HasStored place (exports.flatMap Export.writes)
  accepted : ∀ e ∈ exports, e.IsAccepted
  folder : t.IsFolder directory place
  writable : (last.nameIn directory).IsWritable
  latest : Export.lastUnder exports (last.nameIn directory) = some last

namespace HoldsExports

variable {t : FileTree} {place : Place} {exports : List Export} {e last : Export}
  {directory : String} {sequence : UInt16} {samples : Array Nat} {entry : Entry}

theorem last_mem (hholds : t.HoldsExports place exports last directory) : last ∈ exports := by
  obtain ⟨-, before, after, hsplit, -⟩ := Export.lastUnder_spec hholds.latest
  rw [hsplit]
  simp

theorem last_accepted (hholds : t.HoldsExports place exports last directory) : last.IsAccepted :=
  hholds.accepted last hholds.last_mem

/-- The layout of the last image is sound. -/
theorem sound (hholds : t.HoldsExports place exports last directory) :
    (last.layoutIn directory).IsSound := by
  have hown := hholds.last_accepted.sound
  exact ⟨hholds.writable, hown.channel, hown.depth, hown.columns, hown.lines, hown.segments,
    hown.format⟩

/-- **What is found under the name** was written of one of the images, and has the name of a file of
the last one. -/
theorem exists_export (hholds : t.HoldsExports place exports last directory) {kind : FileKind}
    {file : String} (hentry : t.entryAt? (place ++ [file]) = some entry)
    (hfinds : (last.nameIn directory).Finds kind file) :
    ∃ e ∈ exports, ∃ call ∈ e.calls, call.member.kind = kind ∧
      file = (last.nameIn directory).memberName call.member ∧
      (kind = .segment → e.IsUnder (last.nameIn directory)) ∧ ∃ made : NewFile,
        (e.layoutIn e.directory).fileOf call = .ok made ∧ entry = .file made.bytes := by
  obtain ⟨w, hw, rfl, hmade⟩ := hholds.stored.exists_write hentry
  obtain ⟨e, he, hw⟩ := List.mem_flatMap.mp hw
  obtain ⟨call, hcall, rfl⟩ := List.mem_map.mp hw
  obtain ⟨hkind, hname, hunder⟩ := (hholds.accepted e he).of_finds hholds.last_accepted hfinds
  exact ⟨e, he, call, hcall, hkind, hname, hunder, hmade⟩

/-- A segment that is there is one of an image under the name. -/
theorem exists_segment (hholds : t.HoldsExports place exports last directory)
    (hentry : t.entryAt? (place ++ [(last.nameIn directory).memberName (.segment sequence)]) =
      some entry) :
    ∃ e ∈ exports, e.IsUnder (last.nameIn directory) ∧ 1 ≤ sequence.toNat ∧
      sequence.toNat ≤ e.segmentCount ∧ ∃ samples bytes, entry = .file bytes ∧
        (e.layoutIn directory).HoldsSegment sequence samples bytes := by
  obtain ⟨e, he, call, hcall, -, hname, hunder, made, hmade, hbytes⟩ :=
    hholds.exists_export hentry (hholds.writable.finds_memberName (.segment sequence))
  have hmember := ProductName.memberName_inj hholds.writable hname
  have haccepted := hholds.accepted e he
  cases call with
  | prologue p => cases hmember
  | epilogue c => cases hmember
  | segment own stored =>
      cases hmember
      obtain ⟨hone, hlast⟩ := haccepted.segment_mem_calls hcall
      obtain ⟨-, hsegment⟩ := ProductLayout.segmentFile_spec haccepted.sound.name.check
        haccepted.sound.depth hmade
      exact ⟨e, he, hunder rfl, hone, hlast, stored, made.bytes, hbytes,
        Export.holdsSegment_layoutIn hsegment directory⟩

/-- What was written of an image is there, be it its own or what a later image put in its place. -/
theorem exists_file_of_mem_calls (hholds : t.HoldsExports place exports last directory)
    (he : e ∈ exports) {call : WriteCall} (hcall : call ∈ e.calls) :
    ∃ bytes, t.entryAt? (place ++ [e.name.memberName call.member]) = some (.file bytes) := by
  have hwrite : ProductWrite.mk (e.layoutIn e.directory) call ∈ exports.flatMap Export.writes :=
    List.mem_flatMap.mpr ⟨e, he, List.mem_map_of_mem hcall⟩
  obtain ⟨latest, hlatest⟩ := ProductWrite.exists_last hwrite
  obtain ⟨made, -, hentry⟩ := hholds.stored.written _ latest hlatest
  exact ⟨made.bytes, hentry⟩

/-- Each segment of each image under the name has a file, be it its own or that of a later image. -/
theorem exists_entry (hholds : t.HoldsExports place exports last directory) (he : e ∈ exports)
    (hunder : e.IsUnder (last.nameIn directory)) (sequence : UInt16) (hone : 1 ≤ sequence.toNat)
    (hlast : sequence.toNat ≤ e.segmentCount) :
    ∃ entry, t.entryAt? (place ++ [(last.nameIn directory).memberName (.segment sequence)]) =
      some entry := by
  obtain ⟨samples, hsamples⟩ := (hholds.accepted e he).exists_lastSamples sequence hone hlast
  have hcall := WriteCall.last_segment e.calls sequence
  rw [hsamples, Option.map_some] at hcall
  obtain ⟨hmem, -⟩ := WriteCall.mem_of_last hcall
  obtain ⟨bytes, hentry⟩ := hholds.exists_file_of_mem_calls he hmem
  rw [← hunder]
  exact ⟨_, hentry⟩

/-- **The segments of the last image** are there with their own samples. -/
theorem last_segment (hholds : t.HoldsExports place exports last directory)
    (hsamples : WriteCall.lastSamples last.calls sequence = some samples) :
    ∃ bytes,
      t.entryAt? (place ++ [(last.nameIn directory).memberName (.segment sequence)]) =
        some (.file bytes) ∧ (last.layoutIn directory).HoldsSegment sequence samples bytes := by
  have haccepted := hholds.last_accepted
  obtain ⟨-, before, after, hsplit, hafter⟩ := Export.lastUnder_spec hholds.latest
  have hown : ProductWrite.last last.writes (last.name.memberName (.segment sequence)) =
      some ⟨last.layoutIn last.directory, .segment sequence samples⟩ := by
    have hmap := ProductWrite.last_map haccepted.sound.name last.calls (.segment sequence)
    rw [WriteCall.last_segment, hsamples] at hmap
    exact hmap
  have hlater : ProductWrite.last (after.flatMap Export.writes)
      (last.name.memberName (.segment sequence)) = none := by
    rw [ProductWrite.last_eq_none_iff]
    intro w hw hsame
    obtain ⟨e, he, hw⟩ := List.mem_flatMap.mp hw
    obtain ⟨call, hcall, rfl⟩ := List.mem_map.mp hw
    have hfinds := hholds.writable.finds_memberName (.segment sequence)
    have hmem : e ∈ exports := by
      rw [hsplit]
      simp [he]
    have hfinds : (last.nameIn directory).Finds .segment (e.name.memberName call.member) := by
      rw [show e.name.memberName call.member = _ from hsame]
      exact hfinds
    exact hafter e he (((hholds.accepted e hmem).of_finds haccepted hfinds).2.2 rfl)
  have hlast : ProductWrite.last (exports.flatMap Export.writes)
      (last.name.memberName (.segment sequence)) =
        some ⟨last.layoutIn last.directory, .segment sequence samples⟩ := by
    rw [hsplit, List.flatMap_append, List.flatMap_cons, ProductWrite.last_append,
      ProductWrite.last_append, hlater, hown]
    rfl
  obtain ⟨made, hmade, hentry⟩ := hholds.stored.written _ _ hlast
  obtain ⟨-, hsegment⟩ := ProductLayout.segmentFile_spec haccepted.sound.name.check
    haccepted.sound.depth hmade
  exact ⟨made.bytes, hentry, Export.holdsSegment_layoutIn hsegment directory⟩

/-- Some prologue is there. -/
theorem exists_prologue (hholds : t.HoldsExports place exports last directory) :
    ∃ p bytes, t.entryAt? (place ++ [(last.nameIn directory).memberName .prologue]) =
      some (.file bytes) ∧ Prologue.StandsIn p bytes := by
  have hcall : WriteCall.prologue (last.image.prologue
      (last.radiometry.getD (last.image.ownRadiometry last.channel))) ∈ last.calls :=
    List.mem_cons_self
  obtain ⟨bytes, hentry⟩ := hholds.exists_file_of_mem_calls hholds.last_mem hcall
  obtain ⟨e, he, call, hcall, hkind, -, -, made, hmade, hbytes⟩ :=
    hholds.exists_export hentry (hholds.writable.finds_memberName .prologue)
  cases call with
  | epilogue c => cases hkind
  | segment own stored => cases hkind
  | prologue p =>
      obtain ⟨-, time, hstands, -⟩ := ProductLayout.prologueFile_spec hmade
      rw [hbytes] at hentry
      exact ⟨p.readAt time, made.bytes, hentry, hstands⟩

/-- **If no image under the name had more segments than the last**, the directory holds the product
of the last one. -/
theorem holdsProduct (hholds : t.HoldsExports place exports last directory)
    (hmost : ∀ e ∈ exports, e.IsUnder (last.nameIn directory) →
      e.segmentCount ≤ last.segmentCount) :
    ∃ p, t.HoldsProduct place (last.layoutIn directory) p (WriteCall.lastSamples last.calls) := by
  obtain ⟨p, bytes, hentry, hstands⟩ := hholds.exists_prologue
  refine ⟨p, hholds.stored.wellFormed, hholds.folder, ?_, ⟨bytes, hentry, hstands⟩,
    fun sequence samples hsamples => hholds.last_segment hsamples, ?_⟩
  · intro kind file entry hentry hfinds
    obtain ⟨-, -, call, -, -, hname, -⟩ := hholds.exists_export hentry hfinds
    exact ⟨call.member, hname⟩
  · intro sequence hnone
    cases hentry : t.entryAt? (place ++ [(last.nameIn directory).memberName (.segment sequence)]) with
    | none => exact hentry
    | some entry =>
        obtain ⟨e, he, hunder, hone, hlast, -⟩ := hholds.exists_segment hentry
        obtain ⟨samples, hsamples⟩ := hholds.last_accepted.exists_lastSamples sequence hone
          (Nat.le_trans hlast (hmost e he hunder))
        rw [hnone] at hsamples
        cases hsamples

/-- **Then the last image comes back**, if a search comes through the directory. -/
theorem decode_last (hholds : t.HoldsExports place exports last directory)
    (hregular : last.image.IsRegular) (hsearchable : Path.isSearchable directory)
    (hmost : ∀ e ∈ exports, e.IsUnder (last.nameIn directory) →
      e.segmentCount ≤ last.segmentCount) (missingValue : Float32) :
    ∃ back, (t.decode (last.nameIn directory) (.raw missingValue)).result = .ok back ∧
      back.HasPixelsOf last.image := by
  obtain ⟨p, hproduct⟩ := hholds.holdsProduct hmost
  have hi := hholds.last_accepted.exportable
  have hpositive := Image.segmentCount_pos hregular.lines
  obtain ⟨samples, hsamples⟩ := hholds.last_accepted.exists_lastSamples 1 (Nat.le_refl 1) hpositive
  have hplanned : 1 ≤ (last.layoutIn directory).plannedEnd.toNat :=
    (hi.toNat_plannedEnd _).symm ▸ hpositive
  have hidentity : ∀ o product, (last.layoutIn directory).IsOpened t product p o →
      (LocatedProduct.calibration o (.raw missingValue)).result =
        .ok Calibration.identity := fun _ _ _ => rfl
  obtain ⟨product, o, -, -, hdecode⟩ := hproduct.decode_counts hholds.sound hsearchable
    ⟨1, Nat.le_refl 1, hplanned, Option.isSome_of_eq_some hsamples⟩ rfl rfl hidentity
  exact ⟨_, hdecode, hi.hasPixelsOf_ofCountAt last.radiometry _ hregular.columnFactor
    hregular.lineFactor hregular.counts _ _ { product.frameImage o with x0 := 0, y0 := 0 }⟩

/-- The product of the last image is looked for in its directory. -/
theorem isSoughtIn (hholds : t.HoldsExports place exports last directory)
    (hsearchable : Path.isSearchable directory) : (last.nameIn directory).IsSoughtIn t place :=
  ⟨hholds.writable.check, hholds.folder, hholds.writable.path, hsearchable⟩

/-- A segment that is found is a file under the name. -/
theorem exists_entry_of_found (hholds : t.HoldsExports place exports last directory)
    (hsearchable : Path.isSearchable directory) {path : String}
    (hpath : path ∈ t.found (last.nameIn directory) .segment) :
    ∃ sequence entry, path = (last.layoutIn directory).foundPath (.segment sequence) ∧
      t.entryAt? (place ++ [(last.nameIn directory).memberName (.segment sequence)]) =
        some entry := by
  obtain ⟨file, hthere, hfinds, rfl⟩ :=
    (mem_found_iff hholds.stored.wellFormed (hholds.isSoughtIn hsearchable)).mp hpath
  obtain ⟨entry, hentry⟩ := Option.isSome_iff_exists.mp hthere
  obtain ⟨-, -, call, -, hkind, rfl, -⟩ := hholds.exists_export hentry hfinds
  cases hmember : call.member with
  | prologue => rw [hmember] at hkind; cases hkind
  | epilogue => rw [hmember] at hkind; cases hkind
  | segment sequence =>
      rw [hmember] at hentry
      exact ⟨sequence, entry, rfl, hentry⟩

/-- A file with a segment is found, and its header says what its image says. -/
theorem found_segment (hholds : t.HoldsExports place exports last directory)
    (hsearchable : Path.isSearchable directory) {bytes : List UInt8}
    (hentry : t.entryAt? (place ++ [(last.nameIn directory).memberName (.segment sequence)]) =
      some (.file bytes)) (hsegment : (e.layoutIn directory).HoldsSegment sequence samples bytes) :
    (last.layoutIn directory).foundPath (.segment sequence) ∈
        t.found (last.nameIn directory) .segment ∧
      ∃ header, t.readHeader ((last.layoutIn directory).foundPath (.segment sequence)) = .ok header ∧
        (e.layoutIn directory).Describes sequence header ∧
          t.identification? ((last.layoutIn directory).foundPath (.segment sequence)) =
            some ((e.layoutIn directory).identification sequence) := by
  have hfinds := hholds.writable.finds_memberName (.segment sequence)
  obtain ⟨header, hread, hdescribes⟩ := FileTree.readHeader_foundPath hholds.stored.wellFormed
    (l := last.layoutIn directory) hholds.folder hholds.writable hsearchable hentry hsegment
  refine ⟨?_, header, hread, hdescribes, ?_⟩
  · exact (mem_found_iff hholds.stored.wellFormed (hholds.isSoughtIn hsearchable)).mpr
      ⟨_, by rw [hentry]; rfl, hfinds, rfl⟩
  · rw [identification?, hread]
    exact hdescribes.identification

/-- **A product has as many slots as any image under its name had segments**, for the last one of
them is still there or replaced by one of an image that had no fewer. -/
theorem le_plannedCount (hholds : t.HoldsExports place exports last directory)
    (hsearchable : Path.isSearchable directory) (he : e ∈ exports)
    (hunder : e.IsUnder (last.nameIn directory)) {p : LocatedProduct}
    (hlocated : (t.locate (last.nameIn directory)).result = .ok p) :
    e.segmentCount ≤ p.plannedCount := by
  obtain ⟨hname, hsettled⟩ := isSettledBy_of_locate hlocated
  have hgreatest := hsettled.count
  rw [hname] at hgreatest
  rcases Nat.eq_zero_or_pos e.segmentCount with hzero | hpositive
  · rw [hzero]
    exact Nat.zero_le _
  have hnumber : (UInt16.ofNat e.segmentCount).toNat = e.segmentCount :=
    UInt16.toNat_ofNat_of_lt' (Nat.lt_succ_of_le (hholds.accepted e he).exportable.segments)
  obtain ⟨entry, hentry⟩ := hholds.exists_entry he hunder (.ofNat e.segmentCount)
    (hnumber.symm ▸ hpositive) (Nat.le_of_eq hnumber)
  obtain ⟨own, hown, -, -, hlast, samples, bytes, rfl, hsegment⟩ := hholds.exists_segment hentry
  obtain ⟨hfound, -, -, -, hidentification⟩ := hholds.found_segment hsearchable hentry hsegment
  have hplanned : ((own.layoutIn directory).identification (.ofNat e.segmentCount)).plannedEnd.toNat =
      own.segmentCount := (hholds.accepted own hown).exportable.toNat_plannedEnd (own.nameIn directory)
  have hle := hgreatest.2 ⟨_, hfound, _, hidentification, hplanned⟩
  rw [hnumber] at hlast
  exact Nat.le_trans hlast hle

/-- The first segment of a product is that of the last image under its name. -/
theorem describes_firstHeader (hholds : t.HoldsExports place exports last directory)
    (hsearchable : Path.isSearchable directory) (hlines : last.image.lines ≠ 0) {p : LocatedProduct}
    (hlocated : (t.locate (last.nameIn directory)).result = .ok p) :
    (last.layoutIn directory).Describes 1 p.firstHeader := by
  obtain ⟨hname, hsettled⟩ := isSettledBy_of_locate hlocated
  obtain ⟨samples, hsamples⟩ := hholds.last_accepted.exists_lastSamples 1 (Nat.le_refl 1)
    (Image.segmentCount_pos hlines)
  obtain ⟨bytes, hentry, hsegment⟩ := hholds.last_segment hsamples
  obtain ⟨hfound, header, hread, hdescribes, hid⟩ :=
    hholds.found_segment hsearchable hentry hsegment
  have hfirst : (t.numbered p.name 1).Nonempty := by
    rw [hname]
    exact ⟨_, hfound, _, hid, rfl⟩
  obtain ⟨i, path, hslot, hempty, hheader⟩ := hsettled.header
  obtain ⟨hi, -⟩ := List.getElem?_eq_some_iff.mp hslot
  have hzero : i = 0 := by
    by_contra hlater
    have hnone := (hsettled.absent 0 (by omega)).mp (hempty 0 (Nat.pos_of_ne_zero hlater))
    exact Set.not_nonempty_empty (hnone ▸ hfirst)
  subst hzero
  obtain ⟨hpath, hnumber⟩ := (hsettled.present 0 path hslot).1
  rw [hname] at hpath
  obtain ⟨sequence, entry, rfl, hthere⟩ := hholds.exists_entry_of_found hsearchable hpath
  obtain ⟨own, -, -, -, -, stored, bytes, rfl, hown⟩ := hholds.exists_segment hthere
  obtain ⟨-, -, -, -, hidentification⟩ := hholds.found_segment hsearchable hthere hown
  have hone : sequence = 1 :=
    UInt16.toNat_inj.mp (HasNumber.unique ⟨_, hidentification, rfl⟩ hnumber)
  subst hone
  rw [hread] at hheader
  exact Except.ok.inj hheader ▸ hdescribes

end HoldsExports

/-- A decoded image has the lines of the frame. -/
theorem exists_frame_of_decode {t : FileTree} {name : ProductName} {missingValue : Float32}
    {back : Image} (hdecode : (t.decode name (.raw missingValue)).result = .ok back) :
    ∃ p o, (t.locate name).result = .ok p ∧ (p.openHeaders t).result = .ok o ∧
      back.lines = o.reader.frame.lines := by
  rw [decode, Noted.result_bind] at hdecode
  obtain ⟨p, hlocated, hattempt⟩ := Outcome.bind_eq_ok_iff.mp hdecode
  rw [LocatedProduct.attempt_result] at hattempt
  obtain ⟨o, hopen, hattempt⟩ := Outcome.bind_eq_ok_iff.mp hattempt
  obtain ⟨c, -, hattempt⟩ := Outcome.bind_eq_ok_iff.mp hattempt
  obtain ⟨area, harea, hattempt⟩ := Outcome.bind_eq_ok_iff.mp hattempt
  obtain ⟨data, hread, rfl⟩ := Outcome.map_eq_ok_iff.mp hattempt
  obtain ⟨hends, rfl⟩ := (@LocatedProduct.requestedArea_whole_eq_ok_iff (.raw missingValue) _ _
    area).mp harea
  have hpositive := Nat.ne_of_gt (PixelArea.endsWithin_iff.mp hends).2.1
  have hwhole := (LocatedProduct.isOfWords_of_openHeaders hopen).fits_whole
  obtain ⟨-, hlines, -⟩ := FrameReader.readArea_of_readFrame hpositive hwhole hread
  refine ⟨p, o, hlocated, hopen, ?_⟩
  rw [LocatedProduct.areaImage_whole]
  exact hlines

/-- **If an image under the name had more segments than the last**, what is decoded is more than the
last image. -/
theorem HoldsExports.lines_lt {t : FileTree} {place : Place} {exports : List Export}
    {e last : Export} {directory : String} (hholds : t.HoldsExports place exports last directory)
    (hsearchable : Path.isSearchable directory) (hlines : last.image.lines ≠ 0) (he : e ∈ exports)
    (hunder : e.IsUnder (last.nameIn directory)) (hmore : last.segmentCount < e.segmentCount)
    {missingValue : Float32} {back : Image}
    (hdecode : (t.decode (last.nameIn directory) (.raw missingValue)).result = .ok back) :
    last.image.lines < back.lines := by
  obtain ⟨p, o, hlocated, hopen, hback⟩ := exists_frame_of_decode hdecode
  obtain ⟨coverage, hreader⟩ := LocatedProduct.exists_ofProduct_of_openHeaders hopen
  have hdescribes := hholds.describes_firstHeader hsearchable hlines hlocated
  rw [hdescribes.ofProduct hholds.sound] at hreader
  have hcount := Nat.lt_of_lt_of_le hmore (hholds.le_plannedCount hsearchable he hunder hlocated)
  have hheight := Image.segmentHeight_pos last.image.lines
  calc last.image.lines
      = last.segmentCount * Image.segmentHeight last.image.lines :=
        (Image.segmentCount_mul_height _).symm
    _ < p.plannedCount * Image.segmentHeight last.image.lines :=
        Nat.mul_lt_mul_of_pos_right hcount hheight
    _ = (last.layoutIn directory).segmentLines.toNat * p.plannedCount := by
        rw [Nat.mul_comm, Export.layoutIn, hholds.last_accepted.exportable.toNat_segmentLines]
    _ = o.reader.frame.lines := by
        rw [Frame.lines_eq (LocatedProduct.isOfWords_of_openHeaders hopen).fits,
          ← Except.ok.inj hreader]
        rfl
    _ = back.lines := hback.symm

/-- The last image under a name comes back just if a search comes through the directory and no image
under the name had more segments. -/
theorem HoldsExports.comes_back_iff {t : FileTree} {place : Place} {exports : List Export}
    {last : Export} {directory : String} (hholds : t.HoldsExports place exports last directory)
    (hregular : last.image.IsRegular) (missingValue : Float32) :
    (∃ back, (t.decode (last.nameIn directory) (.raw missingValue)).result = .ok back ∧
        back.HasPixelsOf last.image) ↔
      Path.isSearchable directory ∧
        ∀ e ∈ exports, e.IsUnder (last.nameIn directory) → e.segmentCount ≤ last.segmentCount := by
  constructor
  · intro hgiven
    obtain ⟨back, hdecode, hpixels⟩ := hgiven
    have hsearchable : Path.isSearchable directory := by
      by_contra hastray
      rw [Bool.not_eq_true] at hastray
      have hlost := decode_astray hholds.stored.wellFormed hholds.writable hholds.folder hastray
        (.raw missingValue)
      rw [hdecode] at hlost
      cases hlost
    refine ⟨hsearchable, fun e he hunder => ?_⟩
    by_contra hmore
    have hlines := hholds.lines_lt hsearchable hregular.lines he hunder (Nat.lt_of_not_le hmore)
      hdecode
    exact Nat.ne_of_gt hlines hpixels.lines
  · intro hgiven
    obtain ⟨hsearchable, hmost⟩ := hgiven
    exact hholds.decode_last hregular hsearchable hmost missingValue

/-- **Images exported one after the other.**  Let images with pixels, positive factors and counts that
their bits hold be exported one after the other into an empty directory, which may be told in several
ways, and let each of them be accepted.  Under every name that was recorded an image was exported
last.  Decoding the name gives an image with the pixels of this one just if a search comes through
the directory and no image under the name had more segments. -/
theorem last_image_comes_back {t : FileTree} {place : Place} {exports : List Export}
    (hwf : t.WellFormed) (hempty : t.children place = [])
    (hfolder : ∀ e ∈ exports, t.IsFolder e.directory place)
    (hregular : ∀ e ∈ exports, e.image.IsRegular)
    (hall : ∀ outcome ∈ (t.exportAll exports).2, ∃ name, outcome = .ok name)
    (missingValue : Float32) (name : ProductName) (hname : .ok name ∈ (t.exportAll exports).2) :
    ∃ last, Export.lastUnder exports name = some last ∧
      ((∃ back, ((t.exportAll exports).1.decode name (.raw missingValue)).result = .ok back ∧
          back.HasPixelsOf last.image) ↔
        Path.isSearchable name.directory ∧
          ∀ e ∈ exports, e.IsUnder name → e.segmentCount ≤ last.segmentCount) := by
  have haccepted := isAccepted_of_exportAll
    (fun e he => ⟨(hregular e he).columns, (hregular e he).lines⟩) hall
  obtain ⟨hnames, hstored, hextends⟩ := exportAll_accepted (hasStored_nil hwf hempty) hfolder haccepted
  rw [hnames, List.mem_map] at hname
  obtain ⟨e, he, hsame⟩ := hname
  obtain rfl := Except.ok.inj hsame
  obtain ⟨last, hlast⟩ := Export.exists_lastUnder he (rfl : e.IsUnder e.name)
  obtain ⟨hunder, -⟩ := Export.lastUnder_spec hlast
  refine ⟨last, hlast, ?_⟩
  have hholds : (t.exportAll exports).1.HoldsExports place exports last e.directory := by
    refine ⟨hstored, haccepted, isFolder_of_extends hextends (hfolder e he), ?_, ?_⟩
    · exact hunder.symm ▸ (haccepted e he).sound.name
    · exact hunder.symm ▸ hlast
  have hiff := hholds.comes_back_iff (hregular last hholds.last_mem) missingValue
  have hown : last.nameIn e.directory = e.name := hunder
  rw [hown] at hiff
  exact hiff

end FileTree

/-- An image that can be written is accepted if its time can be coded and its paths can be taken. -/
theorem Export.isAccepted_of_toCode {e : Export} (hi : e.image.IsExportable e.channel)
    (hcheck : e.name.check = .ok ())
    (hpath : FileTree.checkPath (Path.join e.directory (e.name.segmentName 1)) = .ok ())
    (hcolumns : e.image.columns ≠ 0) (hlines : e.image.lines ≠ 0) {code : DayCode}
    (hcode : e.image.time.toCode = .ok code) : e.IsAccepted := by
  have hname : e.image.productName e.directory e.channel = .ok e.name :=
    Image.productName_eq_ok_iff.mpr ⟨hcheck, rfl⟩
  have hsound : (e.layoutIn e.directory).IsSound := hi.isSound hname hpath hcolumns hlines
  refine ⟨hi, hsound, fun call hcall => ?_⟩
  exact ProductLayout.exists_fileOf_of_fits
    (hi.fits_writeCalls e.name e.radiometry hcode call hcall)

/-- An image of a single column whose counts are zero, to be exported into `d`. -/
def Export.blank (lines : Nat) : Export where
  image := { Image.fourPixels with
    data := ⟨1, lines, ⟨.one, .one⟩, 10, false, notANumber,
      .counts .bits16 (Array.replicate lines 0)⟩ }
  directory := "d"
  radiometry := none

namespace Export

theorem name_blank (lines : Nat) : (blank lines).name = Image.fourPixelsName "d" :=
  (Image.productName_eq_ok_iff.mp (Image.productName_fourPixels "d")).2.symm

theorem isRegular_blank {lines : Nat} (hlines : lines ≠ 0) : (blank lines).image.IsRegular where
  columns := Nat.one_ne_zero
  lines := hlines
  columnFactor := (by decide : (0 : Int32) < 13642337)
  lineFactor := (by decide : (0 : Int32) < 13642337)
  counts := by
    intro x y count _ _ hraw
    have hzero : (Array.replicate lines 0).getD ((blank lines).image.data.index x y) 0 = count :=
      Option.some.inj hraw
    rw [← hzero, Array.getD_eq_getD_getElem?, Array.getElem?_replicate]
    split <;> exact Nat.two_pow_pos 10

theorem isAccepted_blank {lines : Nat} (hlines : lines ≠ 0)
    (hheight : Image.segmentHeight lines ≤ segmentFieldLimit)
    (hsegments : lines / Image.segmentHeight lines ≤ segmentFieldLimit) :
    (blank lines).IsAccepted := by
  have hcode : UtcTime.toCode ⟨2006, 11, 14, 12, 0, 0⟩ = .ok ⟨17849, 43200000⟩ := by cbv
  have hfind : Channel.ofNumber? 1 = some .vis006 := by decide
  have hchannel : (blank lines).channel = .vis006 := congrArg (Option.getD · .hrv) hfind
  have hi : (blank lines).image.IsExportable (blank lines).channel := {
    channel := hfind.trans (congrArg some hchannel.symm)
    lower := hchannel ▸ Channel.noConfusion
    counts := rfl
    depth := ⟨by show 1 ≤ 10; decide, by show 10 ≤ 16; decide⟩
    columns := (by decide : 1 ≤ segmentFieldLimit)
    height := hheight
    segments := hsegments }
  have hpath : FileTree.checkPath (Path.join "d" ((Image.fourPixelsName "d").segmentName 1)) =
      .ok () := rfl
  obtain ⟨hcheck, -⟩ := Image.productName_eq_ok_iff.mp (Image.productName_fourPixels "d")
  rw [← name_blank lines] at hcheck hpath
  exact isAccepted_of_toCode hi hcheck hpath Nat.one_ne_zero hlines hcode

/-- An image of two segments behind one of one segment comes back; the other way round, what comes
back is not the image of one segment. -/
theorem blank_images_in_turn :
    (∃ back, ((ProductLayout.oneDirectory.exportAll [blank 464, blank 928]).1.decode
        (Image.fourPixelsName "d") (.raw notANumber)).result = .ok back ∧
      back.HasPixelsOf (blank 928).image) ∧
    ¬∃ back, ((ProductLayout.oneDirectory.exportAll [blank 928, blank 464]).1.decode
        (Image.fourPixelsName "d") (.raw notANumber)).result = .ok back ∧
      back.HasPixelsOf (blank 464).image := by
  have hsmall : (blank 464).IsAccepted := isAccepted_blank (by decide) (by decide) (by decide)
  have htall : (blank 928).IsAccepted := isAccepted_blank (by decide) (by decide) (by decide)
  have hrun : ∀ first second, (blank first).IsAccepted → (blank second).IsAccepted →
      first ≠ 0 → second ≠ 0 → ((∃ back,
        ((ProductLayout.oneDirectory.exportAll [blank first, blank second]).1.decode
          (Image.fourPixelsName "d") (.raw notANumber)).result = .ok back ∧
            back.HasPixelsOf (blank second).image) ↔
        ∀ e ∈ [blank first, blank second], e.IsUnder (blank second).name →
          e.segmentCount ≤ (blank second).segmentCount) := by
    intro first second hfirst hsecond hfirstLines hsecondLines
    have hplace : ProductLayout.oneDirectory.IsFolder "d" ["w", "d"] := ⟨rfl, rfl⟩
    have hfolder : ∀ e ∈ [blank first, blank second],
        ProductLayout.oneDirectory.IsFolder e.directory ["w", "d"] := by
      simpa using ⟨hplace, hplace⟩
    obtain ⟨hnames, -, -⟩ := FileTree.exportAll_accepted
      (FileTree.hasStored_nil ProductLayout.wellFormed_oneDirectory rfl) hfolder
      (by simpa using ⟨hfirst, hsecond⟩)
    obtain ⟨last, hlast, hiff⟩ := FileTree.last_image_comes_back
      ProductLayout.wellFormed_oneDirectory rfl hfolder
      (by simpa using ⟨isRegular_blank hfirstLines, isRegular_blank hsecondLines⟩)
      (by simp [hnames]) notANumber (blank second).name (by simp [hnames])
    have hown : lastUnder [blank first, blank second] (blank second).name = some (blank second) :=
      List.find?_cons_of_pos (decide_eq_true rfl)
    obtain rfl := Option.some.inj (hown.symm.trans hlast)
    rw [name_blank] at hiff ⊢
    exact hiff.trans (and_iff_right (by decide))
  constructor
  · refine (hrun 464 928 hsmall htall (by decide) (by decide)).mpr fun e he _ => ?_
    simp only [List.mem_cons, List.not_mem_nil, or_false] at he
    rcases he with rfl | rfl <;> decide
  · intro hback
    have hmost := (hrun 928 464 htall hsmall (by decide) (by decide)).mp hback
    exact absurd (hmost (blank 928) List.mem_cons_self rfl) (by decide)

end Export

end SeviriImagery
