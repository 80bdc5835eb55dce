import SeviriImagery.Proofs.Product.Decoding

/-!
# A product written call by call

The files of a product are written one after the other into an empty directory, in any order and
some of them perhaps more than once.  After any number of such calls the directory holds, of each
file that was written, what was written of it last (`ProductLayout.HasWritten`).  One call keeps
this true (`ProductLayout.HasWritten.perform`), and so does a whole run of them.

With a prologue among the calls the directory holds a product, and this is decoded to the samples
that were written: `ProductLayout.written_product_decodes`.
-/

namespace SeviriImagery

/-- A file that is to be written of a product. -/
inductive WriteCall where
  | prologue (p : Prologue)
  | epilogue (e : Epilogue)
  | segment (sequence : UInt16) (samples : Array Nat)

namespace WriteCall

/-- The file that a call writes. -/
def member : WriteCall → ProductMember
  | prologue _ => .prologue
  | epilogue _ => .epilogue
  | segment sequence _ => .segment sequence

/-- The samples that a call writes. -/
def samples? : WriteCall → Option (Array Nat)
  | segment _ samples => some samples
  | _ => none

/-- What a call may ask for: a time that can be coded, or as many samples as a segment has. -/
def Fits (l : ProductLayout) : WriteCall → Prop
  | prologue p => ∃ code, p.acquired.toCode = .ok code
  | epilogue _ => True
  | segment _ samples => samples.size = l.segmentPixels ∧ ∃ code, l.time.toCode = .ok code

/-- The last of some calls that writes a file. -/
def last (calls : List WriteCall) (m : ProductMember) : Option WriteCall :=
  calls.reverse.find? fun call => call.member = m

/-- The samples that were written last of a segment. -/
def lastSamples (calls : List WriteCall) (sequence : UInt16) : Option (Array Nat) :=
  (last calls (.segment sequence)).bind samples?

/-- A call behind the others is the last one for its file. -/
theorem last_append_singleton (calls : List WriteCall) (call : WriteCall) (m : ProductMember) :
    last (calls ++ [call]) m = if call.member = m then some call else last calls m := by
  by_cases hown : call.member = m
  · simp [last, hown]
  · simp [last, hown]

/-- The last call for a file is one of the calls, and for that file. -/
theorem mem_of_last {calls : List WriteCall} {call : WriteCall} {m : ProductMember}
    (hlast : last calls m = some call) : call ∈ calls ∧ call.member = m :=
  ⟨List.mem_reverse.mp (List.mem_of_find?_eq_some hlast), by simpa using List.find?_some hlast⟩

/-- A file for which there was a call has a last one. -/
theorem exists_last {calls : List WriteCall} {call : WriteCall} (hcall : call ∈ calls) :
    ∃ latest, last calls call.member = some latest := by
  rw [← Option.isSome_iff_exists, last, List.find?_isSome]
  exact ⟨call, List.mem_reverse.mpr hcall, by simp⟩

/-- Of calls for different files each is the last one for its own. -/
theorem last_of_nodup {calls : List WriteCall} {call : WriteCall}
    (hnodup : (calls.map member).Nodup) (hcall : call ∈ calls) :
    last calls call.member = some call := by
  obtain ⟨latest, hlatest⟩ := exists_last hcall
  obtain ⟨hmem, hmember⟩ := mem_of_last hlatest
  rw [hlatest, List.inj_on_of_nodup_map hnodup hmem hcall hmember]

/-- The last call for a segment writes the samples that were written last of it. -/
theorem last_segment (calls : List WriteCall) (sequence : UInt16) :
    last calls (.segment sequence) = (lastSamples calls sequence).map (segment sequence) := by
  cases hlast : last calls (.segment sequence) with
  | none =>
      rw [lastSamples, hlast]
      rfl
  | some call =>
      obtain ⟨-, hmember⟩ := mem_of_last hlast
      rw [lastSamples, hlast]
      cases call with
      | prologue p => cases hmember
      | epilogue e => cases hmember
      | segment own stored =>
          cases hmember
          rfl

/-- A segment that was written has samples. -/
theorem lastSamples_isSome {calls : List WriteCall} {sequence : UInt16} {samples : Array Nat}
    (hcall : segment sequence samples ∈ calls) : (lastSamples calls sequence).isSome := by
  obtain ⟨latest, hlatest⟩ := exists_last hcall
  have hlatest : last calls (.segment sequence) = some latest := hlatest
  rw [last_segment, Option.map_eq_some_iff] at hlatest
  obtain ⟨stored, hstored, -⟩ := hlatest
  rw [hstored]
  rfl

end WriteCall

namespace ProductLayout

/-- The file that a call makes. -/
def fileOf (l : ProductLayout) : WriteCall → Except Error NewFile
  | .prologue p => l.prologueFile p
  | .epilogue e => .ok (l.epilogueFile e)
  | .segment sequence samples => l.segmentFile sequence samples

/-- The tree after a call, and the path of the file that was written. -/
def perform (l : ProductLayout) (t : FileTree) (call : WriteCall) :
    FileTree × Except Error String :=
  match l.fileOf call with
  | .ok file => ((t.store file).1, (t.store file).2.result)
  | .error e => (t, .error e)

/-- The tree after some calls one after the other, and what came of each. -/
def performAll (l : ProductLayout) (t : FileTree) :
    List WriteCall → FileTree × List (Except Error String)
  | [] => (t, [])
  | call :: calls =>
      let (next, outcome) := l.perform t call
      let (end', outcomes) := l.performAll next calls
      (end', outcome :: outcomes)

/-- A directory in which some calls were performed holds what was written last of each file, and
nothing else. -/
structure HasWritten (l : ProductLayout) (place : Place) (calls : List WriteCall) (t : FileTree) :
    Prop where
  wellFormed : t.WellFormed
  folder : t.IsFolder l.name.directory place
  member : ∀ name entry, t.entryAt? (place ++ [name]) = some entry →
    ∃ m, name = l.name.memberName m
  written : ∀ m call file, WriteCall.last calls m = some call → l.fileOf call = .ok file →
    t.entryAt? (place ++ [l.name.memberName m]) = some (.file file.bytes)
  unwritten : ∀ m, WriteCall.last calls m = none →
    t.entryAt? (place ++ [l.name.memberName m]) = none

variable {l : ProductLayout} {t : FileTree} {place : Place} {calls : List WriteCall}
  {call : WriteCall}

/-- A call that may be made makes a file. -/
theorem exists_fileOf_of_fits (hfits : call.Fits l) : ∃ file, l.fileOf call = .ok file := by
  cases call with
  | prologue p =>
      obtain ⟨code, hcode⟩ := hfits
      obtain ⟨data, hdata⟩ : ∃ data, p.toDataField = .ok data := by
        rw [Prologue.toDataField, hcode]
        exact ⟨_, rfl⟩
      rw [fileOf, prologueFile, hdata]
      exact ⟨_, rfl⟩
  | epilogue e => exact ⟨_, rfl⟩
  | segment sequence samples =>
      obtain ⟨hsize, code, hcode⟩ := hfits
      rw [fileOf, segmentFile, if_neg (not_not.mpr hsize), hcode]
      exact ⟨_, rfl⟩

/-- The path of a file that a call makes is that of the file's name. -/
theorem path_of_fileOf {file : NewFile} (hfile : l.fileOf call = .ok file) :
    file.path = l.path (l.name.memberName call.member) := by
  cases call with
  | prologue p => exact (prologueFile_spec hfile).1
  | epilogue e =>
      have hfile : l.epilogueFile e = file := Except.ok.inj hfile
      rw [← hfile]
      simp only [epilogueFile, WriteCall.member, ProductName.memberName_epilogue]
  | segment sequence samples =>
      have hfile : l.segmentFile sequence samples = .ok file := hfile
      unfold segmentFile at hfile
      obtain ⟨-, hfile⟩ := Outcome.guard_eq_ok_iff.mp hfile
      obtain ⟨code, -, hfile⟩ := Outcome.bind_eq_ok_iff.mp hfile
      simp only [pure, Except.pure, Except.ok.injEq] at hfile
      rw [← hfile]
      simp only [WriteCall.member, ProductName.memberName_segment]

/-- A call that may be made makes a file, at the path of the file's name. -/
theorem exists_fileOf (hfits : call.Fits l) :
    ∃ file, l.fileOf call = .ok file ∧ file.path = l.path (l.name.memberName call.member) := by
  obtain ⟨file, hfile⟩ := exists_fileOf_of_fits hfits
  exact ⟨file, hfile, path_of_fileOf hfile⟩

/-- A call that makes a file may be made. -/
theorem fits_of_fileOf {file : NewFile} (hfile : l.fileOf call = .ok file) : call.Fits l := by
  cases call with
  | prologue p =>
      obtain ⟨data, hdata, -⟩ := Outcome.bind_eq_ok_iff.mp hfile
      obtain ⟨code, hcode, -⟩ := Outcome.bind_eq_ok_iff.mp (Outcome.mapError_eq_ok_iff.mp hdata)
      exact ⟨code, hcode⟩
  | epilogue e => trivial
  | segment sequence samples =>
      have hfile : l.segmentFile sequence samples = .ok file := hfile
      unfold segmentFile at hfile
      by_cases hsize : samples.size = l.segmentPixels
      · rw [if_neg (not_not.mpr hsize)] at hfile
        obtain ⟨code, hcode, -⟩ := Outcome.bind_eq_ok_iff.mp hfile
        exact ⟨hsize, code, Outcome.mapError_eq_ok_iff.mp hcode⟩
      · rw [if_pos hsize] at hfile
        cases hfile

/-- A file is put in the directory of its product, unless there is a directory in its place. -/
theorem store_eq (hsound : l.IsSound) (hfolder : t.IsFolder l.name.directory place) {file : NewFile}
    (hfile : l.fileOf call = .ok file)
    (hfree : t.entryAt? (place ++ [l.name.memberName call.member]) ≠ some .directory) :
    t.store file = (t.set (place ++ [l.name.memberName call.member]) (.file file.bytes),
      ⟨[.fileWritten file.path], .ok file.path⟩) := by
  obtain ⟨same, hsame, hpath⟩ := exists_fileOf (fits_of_fileOf hfile)
  rw [hfile] at hsame
  cases hsame
  have hplain := ProductName.isPlainName_memberName hsound.name.check call.member
  have hwrite : t.write file.path file.bytes =
      .ok (t.set (place ++ [l.name.memberName call.member]) (.file file.bytes)) := by
    rw [hpath]
    exact FileTree.write_join hfolder hplain (hsound.name.checkPath_memberName call.member) hfree
      file.bytes
  rw [FileTree.store, hwrite]

/-- In an empty directory no call has written anything. -/
theorem hasWritten_nil (hwf : t.WellFormed) (hfolder : t.IsFolder l.name.directory place)
    (hempty : t.children place = []) : l.HasWritten place [] t := by
  have hnone := FileTree.entryAt?_of_children_nil hwf hempty
  refine ⟨hwf, hfolder, ?_, ?_, fun m _ => hnone _⟩
  · intro name entry hentry
    rw [hnone] at hentry
    cases hentry
  · intro m call file hlast
    cases hlast

namespace HasWritten

/-- No directory stands where a file of the product is written. -/
theorem entryAt?_ne_directory (hdone : l.HasWritten place calls t)
    (hall : ∀ c ∈ calls, c.Fits l) (m : ProductMember) :
    t.entryAt? (place ++ [l.name.memberName m]) ≠ some .directory := by
  cases hlast : WriteCall.last calls m with
  | none =>
      rw [hdone.unwritten _ hlast]
      exact nofun
  | some before =>
      obtain ⟨hbefore, -⟩ := WriteCall.mem_of_last hlast
      obtain ⟨old, hold, -⟩ := exists_fileOf (hall before hbefore)
      rw [hdone.written _ before old hlast hold]
      exact nofun

/-- A call puts its file in the directory. -/
theorem perform_eq (hdone : l.HasWritten place calls t) (hsound : l.IsSound)
    (hall : ∀ c ∈ calls, c.Fits l) {file : NewFile} (hfile : l.fileOf call = .ok file) :
    l.perform t call =
      (t.set (place ++ [l.name.memberName call.member]) (.file file.bytes), .ok file.path) := by
  have hfree := hdone.entryAt?_ne_directory hall call.member
  simp only [ProductLayout.perform, hfile, store_eq hsound hdone.folder hfile hfree]

/-- **One call more** writes its file, and leaves the others as they are. -/
theorem perform (hdone : l.HasWritten place calls t) (hsound : l.IsSound)
    (hall : ∀ c ∈ calls, c.Fits l) (hfits : call.Fits l) :
    (l.perform t call).2 = .ok (l.path (l.name.memberName call.member)) ∧
      l.HasWritten place (calls ++ [call]) (l.perform t call).1 := by
  obtain ⟨file, hfile, hpath⟩ := exists_fileOf hfits
  have hfree := hdone.entryAt?_ne_directory hall call.member
  rw [hdone.perform_eq hsound hall hfile, hpath]
  refine ⟨rfl, FileTree.wellFormed_set hdone.wellFormed _ _,
    FileTree.isFolder_of_extends (FileTree.extends_set hfree file.bytes) hdone.folder, ?_, ?_, ?_⟩
  · intro name entry hname
    rw [FileTree.entryAt?_set_child] at hname
    by_cases hown : name = l.name.memberName call.member
    · exact ⟨call.member, hown⟩
    · rw [if_neg hown] at hname
      exact hdone.member name entry hname
  · intro m latest new hlast hnew
    rw [WriteCall.last_append_singleton] at hlast
    rw [FileTree.entryAt?_set_child]
    by_cases hown : call.member = m
    · rw [if_pos hown] at hlast
      cases hlast
      rw [hfile] at hnew
      cases hnew
      rw [hown, if_pos rfl]
    · rw [if_neg hown] at hlast
      rw [if_neg fun hsame => hown (ProductName.memberName_inj hsound.name hsame).symm]
      exact hdone.written m latest new hlast hnew
  · intro m hlast
    rw [WriteCall.last_append_singleton] at hlast
    rw [FileTree.entryAt?_set_child]
    by_cases hown : call.member = m
    · rw [if_pos hown] at hlast
      cases hlast
    · rw [if_neg hown] at hlast
      rw [if_neg fun hsame => hown (ProductName.memberName_inj hsound.name hsame).symm]
      exact hdone.unwritten m hlast

/-- **A run of calls** writes the file of each of them. -/
theorem performAll (hdone : l.HasWritten place calls t) (hsound : l.IsSound)
    (hall : ∀ c ∈ calls, c.Fits l) {more : List WriteCall} (hmore : ∀ c ∈ more, c.Fits l) :
    (l.performAll t more).2 = more.map (fun c => .ok (l.path (l.name.memberName c.member))) ∧
      l.HasWritten place (calls ++ more) (l.performAll t more).1 := by
  induction more generalizing t calls with
  | nil =>
      rw [List.append_nil]
      exact ⟨rfl, hdone⟩
  | cons call more ih =>
      have hfits := hmore call List.mem_cons_self
      obtain ⟨hresult, hnext⟩ := hdone.perform hsound hall hfits
      have hboth : ∀ c ∈ calls ++ [call], c.Fits l :=
        List.forall_mem_append.mpr ⟨hall, List.forall_mem_singleton.mpr hfits⟩
      obtain ⟨hresults, hend⟩ := ih hnext hboth fun c hc => hmore c (List.mem_cons_of_mem call hc)
      rw [List.append_assoc, List.singleton_append] at hend
      refine ⟨?_, hend⟩
      show (l.perform t call).2 :: (l.performAll (l.perform t call).1 more).2 = _
      rw [hresult, hresults, List.map_cons]

/-- Files that are stored one after the other are those of the calls one after the other. -/
theorem storeAll (hdone : l.HasWritten place calls t) (hsound : l.IsSound)
    (hall : ∀ c ∈ calls, c.Fits l) {more : List WriteCall} {files : List NewFile}
    (hfiles : List.Forall₂ (fun c file => l.fileOf c = .ok file) more files) :
    (t.storeAll files).2.result = .ok () ∧
      l.HasWritten place (calls ++ more) (t.storeAll files).1 := by
  induction hfiles generalizing t calls with
  | nil =>
      rw [List.append_nil]
      exact ⟨rfl, hdone⟩
  | @cons call file more files hfile hrest ih =>
      have hfits := fits_of_fileOf hfile
      obtain ⟨hresult, hnext⟩ := hdone.perform hsound hall hfits
      have hperform : l.perform t call = ((t.store file).1, (t.store file).2.result) := by
        simp only [ProductLayout.perform, hfile]
      rw [hperform] at hresult hnext
      have hboth : ∀ c ∈ calls ++ [call], c.Fits l :=
        List.forall_mem_append.mpr ⟨hall, List.forall_mem_singleton.mpr hfits⟩
      obtain ⟨hresults, hend⟩ := ih hnext hboth
      rw [List.append_assoc, List.singleton_append] at hend
      simp only at hresult
      simp only [FileTree.storeAll, hresult]
      exact ⟨hresults, hend⟩

/-- With a prologue among the calls the directory holds a product. -/
theorem holdsProduct (hdone : l.HasWritten place calls t) (hsound : l.IsSound)
    (hall : ∀ c ∈ calls, c.Fits l) (hprologue : ∃ p, .prologue p ∈ calls) :
    ∃ p read, .prologue p ∈ calls ∧ (epochYear ≤ p.acquired.year → read = p.acquired) ∧
      t.HoldsProduct place l (p.readAt read) (WriteCall.lastSamples calls) := by
  obtain ⟨written, hwritten⟩ := hprologue
  obtain ⟨latest, hlatest⟩ := WriteCall.exists_last hwritten
  obtain ⟨hmem, hmember⟩ := WriteCall.mem_of_last hlatest
  obtain ⟨file, hfile, -⟩ := exists_fileOf (hall latest hmem)
  have hentry := hdone.written _ latest file hlatest hfile
  cases latest with
  | epilogue e => cases hmember
  | segment sequence samples => cases hmember
  | prologue p =>
      obtain ⟨-, read, hstands, hread⟩ := prologueFile_spec hfile
      refine ⟨p, read, hmem, hread, hdone.wellFormed, hdone.folder,
        fun _ name entry hentry _ => hdone.member name entry hentry,
        ⟨file.bytes, hentry, hstands⟩, ?_, ?_⟩
      · intro sequence samples hsamples
        have hlast := WriteCall.last_segment calls sequence
        rw [hsamples, Option.map_some] at hlast
        obtain ⟨hmem, -⟩ := WriteCall.mem_of_last hlast
        obtain ⟨new, hnew, -⟩ := exists_fileOf (hall _ hmem)
        exact ⟨new.bytes, hdone.written _ _ new hlast hnew,
          (segmentFile_spec hsound.name.check hsound.depth hnew).2⟩
      · intro sequence hsamples
        exact hdone.unwritten _ (by rw [WriteCall.last_segment, hsamples, Option.map_none])

/-- What was written is decoded, if a search comes through the directory. -/
theorem decode_raw (hdone : l.HasWritten place calls t) (hsound : l.IsSound)
    (hall : ∀ c ∈ calls, c.Fits l) (hprologue : ∃ p, .prologue p ∈ calls)
    (hsegment : ∃ sequence samples, .segment sequence samples ∈ calls ∧
      1 ≤ sequence.toNat ∧ sequence.toNat ≤ l.plannedEnd.toNat)
    (hsearchable : Path.isSearchable l.name.directory) (missingValue : Float32) :
    ∃ image, (t.decode l.name (.raw missingValue)).result = .ok image ∧
      image.columns = l.segmentColumns.toNat ∧
      image.lines = l.plannedEnd.toNat * l.segmentLines.toNat ∧
      ∀ x y, x < image.columns → y < image.lines →
        image.data.raw x y = some (l.countAt (WriteCall.lastSamples calls) x y) := by
  obtain ⟨p, read, -, -, hholds⟩ := hdone.holdsProduct hsound hall hprologue
  obtain ⟨sequence, samples, hmem, hone, hlimit⟩ := hsegment
  have hsome := WriteCall.lastSamples_isSome hmem
  have hidentity : ∀ o product, l.IsOpened t product (p.readAt read) o →
      (LocatedProduct.calibration o (.raw missingValue)).result =
        .ok Calibration.identity := fun _ _ _ => rfl
  obtain ⟨product, o, -, -, hdecode⟩ := hholds.decode_counts hsound hsearchable
    ⟨sequence, hone, hlimit, hsome⟩ rfl rfl hidentity
  exact ⟨_, hdecode, rfl, rfl, fun x y hx hy => PixelData.raw_ofCountAt hx hy⟩

end HasWritten

/-- **A product that is written call by call is decoded to what was written.**  Let the calls be
any in any order, each with a time that can be coded or as many samples as a segment has, a
prologue among them and one of the segments planned.  Then each of them writes its file.

If a search comes through the directory, decoding without calibration gives an image in which each
pixel has the sample written last for its place, as far as its bits were kept, and 0 where its
segment was never written.  If no search comes through it, nothing of the product is found. -/
theorem written_product_decodes (hwf : t.WellFormed)
    (hfolder : t.IsFolder l.name.directory place) (hempty : t.children place = [])
    (hsound : l.IsSound) (hall : ∀ call ∈ calls, call.Fits l)
    (hprologue : ∃ p, .prologue p ∈ calls)
    (hsegment : ∃ sequence samples, .segment sequence samples ∈ calls ∧
      1 ≤ sequence.toNat ∧ sequence.toNat ≤ l.plannedEnd.toNat)
    (missingValue : Float32) :
    (l.performAll t calls).2 =
        calls.map (fun call => .ok (l.path (l.name.memberName call.member))) ∧
      if Path.isSearchable l.name.directory then
        ∃ image, ((l.performAll t calls).1.decode l.name
            (.raw missingValue)).result = .ok image ∧
          image.columns = l.segmentColumns.toNat ∧
          image.lines = l.plannedEnd.toNat * l.segmentLines.toNat ∧
          ∀ x y, x < image.columns → y < image.lines →
            image.data.raw x y = some (l.countAt (WriteCall.lastSamples calls) x y)
      else
        ((l.performAll t calls).1.decode l.name (.raw missingValue)).result =
          .error (.locate (.noSuchFile (l.name.pattern .prologue))) := by
  have hstart := hasWritten_nil hwf hfolder hempty
  obtain ⟨hresults, hdone⟩ := hstart.performAll hsound (fun c hc => by cases hc) hall
  rw [List.nil_append] at hdone
  refine ⟨hresults, ?_⟩
  by_cases hsearchable : Path.isSearchable l.name.directory
  · rw [if_pos hsearchable]
    exact hdone.decode_raw hsound hall hprologue hsegment hsearchable missingValue
  · obtain ⟨p, read, -, -, hholds⟩ := hdone.holdsProduct hsound hall hprologue
    rw [if_neg hsearchable]
    exact hholds.decode_astray hsound.name (by simpa using hsearchable) _

/-- A product of two segments of two lines, stored from the south and from the east. -/
def twoSegments (directory : String) : ProductLayout where
  name := ⟨directory, "H", "MSG2", "IR_108", "200611141200"⟩
  spacecraft := 322
  channel := .ir108
  bitsPerPixel := 10
  segmentColumns := 2
  segmentLines := 2
  plannedEnd := 2
  columnFactor := -13642337
  lineFactor := -13642337
  columnOffset := 1
  lineOffset := 2
  longitude := .zero
  time := ⟨2006, 11, 14, 12, 0, 0⟩
  dataFormat := nativeFormat

/-- Calls that write the prologue of a product and the second of its segments. -/
def secondOnly : List WriteCall := [
  .prologue ⟨322, ⟨2006, 11, 14, 12, 0, 0⟩, .zero, .zero, ⟨322, Vector.replicate 12 .identity⟩⟩,
  .segment 2 #[1, 2, 3, 1029]]

/-- A tree with an empty directory `d` below the working directory. -/
def oneDirectory : FileTree := (FileTree.empty ["w"]).createDirectories "d"

theorem check_sampleName (directory : String) {channel : String}
    (hchannel : NamePart.productId2.check channel = .ok ()) :
    ProductName.check ⟨directory, "H", "MSG2", channel, "200611141200"⟩ = .ok () := by
  have hresolution : NamePart.resolution.check "H" = .ok () :=
    NamePart.check_eq_ok_iff.mpr ⟨by decide, by decide, by simp [NamePart.isForbidden]⟩
  have hsatellite : NamePart.productId1.check "MSG2" = .ok () :=
    NamePart.check_eq_ok_iff.mpr ⟨by decide, by decide, by simp [NamePart.isForbidden]⟩
  have htiming : NamePart.timing.check "200611141200" = .ok () :=
    NamePart.check_eq_ok_iff.mpr ⟨by decide, by decide, by simp [NamePart.isForbidden]⟩
  exact ProductName.check_eq_ok_iff.mpr ⟨hresolution, hsatellite, hchannel, htiming⟩

theorem isSound_twoSegments {directory : String}
    (hpath : FileTree.checkPath (Path.join directory
      ((twoSegments directory).name.segmentName 1)) = .ok ()) : (twoSegments directory).IsSound where
  name := by
    have hascii : ∀ c ∈ "MSG2".toList, c.isAlphanum := by simp
    have hshort : "MSG2".toList.length ≤ 6 := by decide
    have hchannel : NamePart.productId2.check "IR_108" = .ok () :=
      NamePart.check_eq_ok_iff.mpr ⟨by decide, by decide, by simp [NamePart.isForbidden]⟩
    exact ⟨check_sampleName directory hchannel,
      fun c hc => ProductMember.utf8Size_of_isPlain (.inl (hascii c hc)), hshort, hpath⟩
  channel := Channel.noConfusion
  depth := ⟨by show 1 ≤ 10; decide, by show 10 ≤ 16; decide⟩
  columns := (by decide : (2 : UInt16) ≠ 0)
  lines := (by decide : (2 : UInt16) ≠ 0)
  segments := (by decide : (2 : UInt16) ≠ 0)
  format := (by decide : nativeFormat ≠ 0)

theorem fits_secondOnly (directory : String) :
    ∀ call ∈ secondOnly, call.Fits (twoSegments directory) := by
  have hcode : UtcTime.toCode ⟨2006, 11, 14, 12, 0, 0⟩ = .ok ⟨17849, 43200000⟩ := by cbv
  intro call hcall
  simp only [secondOnly, List.mem_cons, List.not_mem_nil, or_false] at hcall
  rcases hcall with rfl | rfl
  · exact ⟨_, hcode⟩
  · exact ⟨rfl, _, hcode⟩

theorem wellFormed_oneDirectory : oneDirectory.WellFormed :=
  FileTree.wellFormed_createDirectories (FileTree.wellFormed_empty ["w"]) "d"

theorem exists_prologue_secondOnly : ∃ p, WriteCall.prologue p ∈ secondOnly :=
  ⟨_, List.mem_cons_self⟩

theorem exists_segment_secondOnly (directory : String) :
    ∃ sequence samples, WriteCall.segment sequence samples ∈ secondOnly ∧
      1 ≤ sequence.toNat ∧ sequence.toNat ≤ (twoSegments directory).plannedEnd.toNat :=
  ⟨2, _, List.mem_cons_of_mem _ List.mem_cons_self, by decide, Nat.le_refl 2⟩

/-- What is written of a product to `d` makes `d` hold the product. -/
theorem holdsProduct_oneDirectory {l : ProductLayout} (hsound : l.IsSound)
    (hdirectory : l.name.directory = "d") (hfits : ∀ call ∈ secondOnly, call.Fits l) :
    ∃ p, (l.performAll oneDirectory secondOnly).1.HoldsProduct ["w", "d"] l p
      (WriteCall.lastSamples secondOnly) := by
  have hfolder : oneDirectory.IsFolder l.name.directory ["w", "d"] := by
    rw [hdirectory]
    exact ⟨rfl, rfl⟩
  obtain ⟨-, hdone⟩ := (hasWritten_nil wellFormed_oneDirectory hfolder rfl).performAll hsound
    (fun c hc => by cases hc) hfits
  obtain ⟨p, read, -, -, hholds⟩ := hdone.holdsProduct hsound hfits exists_prologue_secondOnly
  exact ⟨_, hholds⟩

/-- In `d` the product is found, and half of it has data; in `.//d`, which is the same directory,
it is written but not found. -/
theorem twoSegments_in_two_directories :
    (∃ image, (((twoSegments "d").performAll oneDirectory secondOnly).1.decode
        (twoSegments "d").name (.raw notANumber)).result = .ok image ∧
      image.data.raw 0 0 = some 5 ∧ image.data.raw 0 3 = some 0) ∧
    (((twoSegments ".//d").performAll oneDirectory secondOnly).1.decode
        (twoSegments ".//d").name (.raw notANumber)).result =
      .error (.locate (.noSuchFile ((twoSegments ".//d").name.pattern .prologue))) := by
  refine ⟨?_, ?_⟩
  · obtain ⟨-, hfound⟩ := @written_product_decodes (twoSegments "d") oneDirectory ["w", "d"]
      secondOnly wellFormed_oneDirectory ⟨rfl, rfl⟩ rfl (isSound_twoSegments rfl)
      (fits_secondOnly "d") exists_prologue_secondOnly (exists_segment_secondOnly "d") notANumber
    rw [if_pos (by decide)] at hfound
    obtain ⟨image, hdecode, hcolumns, hlines, hraw⟩ := hfound
    refine ⟨image, hdecode, ?_, ?_⟩
    · rw [hraw 0 0 (by rw [hcolumns]; decide) (by rw [hlines]; decide)]
      decide
    · rw [hraw 0 3 (by rw [hcolumns]; decide) (by rw [hlines]; decide)]
      decide
  · obtain ⟨-, hlost⟩ := @written_product_decodes (twoSegments ".//d") oneDirectory ["w", "d"]
      secondOnly wellFormed_oneDirectory ⟨rfl, rfl⟩ rfl (isSound_twoSegments rfl)
      (fits_secondOnly ".//d") exists_prologue_secondOnly (exists_segment_secondOnly ".//d")
      notANumber
    rwa [if_neg (by decide)] at hlost

end ProductLayout

end SeviriImagery
