import SeviriImagery.Proofs.Product.Exported

/-!
# Exporting image after image

An exporter writes images as products into one directory and keeps the names of those that it has
written.  It takes an image step by step: it checks it, and then it makes each file when its turn
comes and stores it at once (`Exporter.accept`).  A file that could not be made would so leave the
files before it behind.

There is no such file behind the first one.  A prologue is made only if the time of the image has a
code, and then every other file of the image can be made too.  So an exporter does what
`FileTree.writeImage` does, which makes all files before it stores the first
(`Exporter.accept_run`), and a product is written as a whole or not at all, unless the file system
refuses a file (`Exporter.written_whole_or_not_at_all`).
-/

namespace SeviriImagery

/-- An error that says that a tree refuses a file. -/
def FileTree.Refuses (t : FileTree) (e : Error) : Prop :=
  ∃ (file : NewFile) (fault : IoFault), t.write file.path file.bytes = .error fault ∧
    e = .file file.path (.io fault)

/-- Files that are stored one after the other are stored up to one that is refused. -/
theorem FileTree.refuses_of_storeAll {t : FileTree} {files : List NewFile} {e : Error}
    (hstored : (t.storeAll files).2.result = .error e) : (t.storeAll files).1.Refuses e := by
  induction files generalizing t with
  | nil => cases hstored
  | cons file files ih =>
      cases hwrite : t.write file.path file.bytes with
      | error fault =>
          simp only [storeAll, store, hwrite] at hstored ⊢
          cases hstored
          exact ⟨file, fault, hwrite, rfl⟩
      | ok next =>
          simp only [storeAll, store, hwrite] at hstored ⊢
          exact ih hstored

namespace ProductLayout

/-- A tree that was made from another by putting the files of some calls into a directory. -/
structure HasReceived (l : ProductLayout) (place : Place) (calls : List WriteCall)
    (t s : FileTree) : Prop where
  folder : t.IsFolder l.name.directory place
  file : ∀ call ∈ calls, ∃ file, l.fileOf call = .ok file ∧
    t.entryAt? (place ++ [l.name.memberName call.member]) = some (.file file.bytes)
  elsewhere : ∀ p, (∀ call ∈ calls, p ≠ place ++ [l.name.memberName call.member]) →
    t.entryAt? p = s.entryAt? p

variable {l : ProductLayout} {t : FileTree} {place : Place} {call : WriteCall} {file : NewFile}

/-- A file of a product that was stored lies in the directory of the product. -/
theorem exists_of_store (hname : l.name.IsWritable) (hfile : l.fileOf call = .ok file)
    {written : String} (hstored : (t.store file).2.result = .ok written) :
    ∃ place, t.IsFolder l.name.directory place ∧
      t.entryAt? (place ++ [l.name.memberName call.member]) ≠ some .directory ∧
      (t.store file).1 = t.set (place ++ [l.name.memberName call.member]) (.file file.bytes) := by
  cases hwrite : t.write file.path file.bytes with
  | error fault =>
      rw [FileTree.store, hwrite] at hstored
      cases hstored
  | ok next =>
      have hnext : (t.store file).1 = next := by rw [FileTree.store, hwrite]
      rw [path_of_fileOf hfile, ProductLayout.path] at hwrite
      rw [hnext]
      exact FileTree.exists_of_write_join (ProductName.isPlainName_memberName hname.check _) hwrite

/-- If a file of a product was stored, there is a directory for all of them. -/
theorem exists_isFolder_of_storeAll (hname : l.name.IsWritable) {calls : List WriteCall}
    {files : List NewFile}
    (hfiles : List.Forall₂ (fun call file => l.fileOf call = .ok file) calls files)
    (hstored : (t.storeAll files).2.result = .ok ()) (hcall : call ∈ calls) :
    ∃ place, t.IsFolder l.name.directory place := by
  cases hfiles with
  | nil => cases hcall
  | @cons first file calls files hfile _ =>
      cases hfirst : (t.store file).2.result with
      | error e =>
          simp only [FileTree.storeAll, hfirst] at hstored
          cases hstored
      | ok path =>
          obtain ⟨place, hfolder, -⟩ := exists_of_store hname hfile hfirst
          exact ⟨place, hfolder⟩

/-- **The files of a product that were stored are there**, each with its own content, and everything
else is as it was. -/
theorem hasReceived_storeAll (hname : l.name.IsWritable)
    (hfolder : t.IsFolder l.name.directory place) {calls : List WriteCall} {files : List NewFile}
    (hnodup : (calls.map WriteCall.member).Nodup)
    (hfiles : List.Forall₂ (fun call file => l.fileOf call = .ok file) calls files)
    (hstored : (t.storeAll files).2.result = .ok ()) :
    l.HasReceived place calls (t.storeAll files).1 t := by
  induction hfiles generalizing t with
  | nil =>
      refine ⟨hfolder, ?_, fun _ _ => rfl⟩
      intro call hcall
      cases hcall
  | @cons first file calls files hfile _ ih =>
      rw [List.map_cons, List.nodup_cons] at hnodup
      cases hfirst : (t.store file).2.result with
      | error e =>
          simp only [FileTree.storeAll, hfirst] at hstored
          cases hstored
      | ok path =>
          simp only [FileTree.storeAll, hfirst] at hstored ⊢
          obtain ⟨own, hown, hfree, hnext⟩ := exists_of_store hname hfile hfirst
          have hsame : own = place := hfolder.unique hown
          subst hsame
          have hextends := FileTree.extends_set hfree file.bytes
          rw [← hnext] at hextends
          have hset (p : Place) := FileTree.entryAt?_set t
            (own ++ [l.name.memberName first.member]) p (.file file.bytes) (by simp)
          rw [← hnext] at hset
          have hrest := ih (FileTree.isFolder_of_extends hextends hfolder) hnodup.2 hstored
          refine ⟨hrest.folder, ?_, ?_⟩
          · intro call hcall
            rcases List.mem_cons.mp hcall with rfl | hcall
            · refine ⟨file, hfile, ?_⟩
              rw [hrest.elsewhere, hset, if_pos rfl]
              -- no later call writes the first file once more
              intro other hother hplace
              have hmember := ProductName.memberName_inj hname
                (List.singleton_injective (List.append_cancel_left hplace))
              exact hnodup.1 (List.mem_map.mpr ⟨other, hother, hmember.symm⟩)
            · exact hrest.file call hcall
          · intro p hp
            rw [hrest.elsewhere p fun call hcall => hp call (List.mem_cons_of_mem first hcall), hset,
              if_neg (hp first List.mem_cons_self)]

/-- A tree into which a product was written: its prologue, its epilogue and its segments from the
first to the last one planned are in its directory under names of their own, and everything else is
as in the tree before. -/
structure IsStored (l : ProductLayout) (place : Place) (p : Prologue)
    (samples : Nat → Array Nat) (t before : FileTree) : Prop where
  folder : t.IsFolder l.name.directory place
  apart : ∀ a b, l.name.memberName a = l.name.memberName b → a = b
  prologue : ∃ bytes read, t.entryAt? (place ++ [l.name.prologueName]) = some (.file bytes) ∧
    (p.readAt read).StandsIn bytes
  epilogue : t.entryAt? (place ++ [l.name.epilogueName]) =
    some (.file (l.epilogueFile ⟨.zero⟩).bytes)
  segment : ∀ index < l.plannedEnd.toNat, ∃ bytes,
    t.entryAt? (place ++ [l.name.segmentName (index + 1)]) = some (.file bytes) ∧
      l.HoldsSegment (.ofNat (index + 1)) (samples index) bytes
  elsewhere : ∀ other, other ≠ place ++ [l.name.prologueName] →
    other ≠ place ++ [l.name.epilogueName] →
    (∀ index < l.plannedEnd.toNat, other ≠ place ++ [l.name.segmentName (index + 1)]) →
      t.entryAt? other = before.entryAt? other

end ProductLayout

namespace Image

variable {i : Image} {c : Channel} {name : ProductName} {directory : String}
  {radiometry : Option Radiometry} {place : Place} {t before : FileTree}

/-- **What a tree has received of an image is the whole product**, and nothing else. -/
theorem IsExportable.isStored (hi : i.IsExportable c)
    (hname : i.productName directory c = .ok name)
    (hreceived : (i.productLayout name c).HasReceived place (i.writeCalls c radiometry) t before)
    (hwritable : (i.productLayout name c).name.IsWritable) :
    (i.productLayout name c).IsStored place
      (i.prologue (radiometry.getD (i.ownRadiometry c)))
      (i.storedSamples (segmentHeight i.lines)) t before := by
  obtain ⟨hcheck, -⟩ := productName_eq_ok_iff.mp hname
  have hplanned := hi.toNat_plannedEnd name
  have hnumber : ∀ index < (i.productLayout name c).plannedEnd.toNat,
      (i.productLayout name c).name.memberName (.segment (.ofNat (index + 1))) =
        (i.productLayout name c).name.segmentName (index + 1) := by
    intro index hindex
    have hlimit := (i.productLayout name c).plannedEnd.toNat_lt
    rw [ProductName.memberName_segment, UInt16.toNat_ofNat', Nat.mod_eq_of_lt (by omega)]
  constructor
  case folder => exact hreceived.folder
  case apart => exact fun _ _ => ProductName.memberName_inj hwritable
  case prologue =>
    obtain ⟨file, hfile, hentry⟩ := hreceived.file _ (prologue_mem_writeCalls_iff.mpr rfl)
    obtain ⟨-, read, hstands, -⟩ := ProductLayout.prologueFile_spec hfile
    exact ⟨file.bytes, read, hentry, hstands⟩
  case epilogue =>
    obtain ⟨file, hfile, hentry⟩ := hreceived.file (.epilogue ⟨.zero⟩) (by simp [writeCalls])
    have hown : (i.productLayout name c).epilogueFile ⟨.zero⟩ = file := Except.ok.inj hfile
    rw [hown]
    exact hentry
  case segment =>
    intro index hindex
    have hcall : WriteCall.segment (.ofNat (index + 1))
        (i.storedSamples (segmentHeight i.lines) index) ∈ i.writeCalls c radiometry :=
      List.mem_cons_of_mem _ (List.mem_cons_of_mem _
        (List.mem_map.mpr ⟨index, List.mem_range.mpr (hplanned ▸ hindex), rfl⟩))
    obtain ⟨file, hfile, hentry⟩ := hreceived.file _ hcall
    have hdepth := hi.depth
    rw [← hi.toNat_bitsPerPixel name] at hdepth
    obtain ⟨-, hholds⟩ := ProductLayout.segmentFile_spec hcheck hdepth hfile
    refine ⟨file.bytes, ?_, hholds⟩
    rw [← hnumber index hindex]
    exact hentry
  case elsewhere =>
    intro other hprologue hepilogue hsegments
    refine hreceived.elsewhere other fun call hcall => ?_
    simp only [writeCalls, List.mem_cons, List.mem_map, List.mem_range] at hcall
    rcases hcall with rfl | rfl | ⟨index, hindex, rfl⟩
    · exact hprologue
    · exact hepilogue
    · rw [← hplanned] at hindex
      have hother := hsegments index hindex
      rw [← hnumber index hindex] at hother
      exact hother

/-- An image that is not written leaves the tree alone, unless the tree refuses a file. -/
theorem writeImage_eq_error {fault : Error}
    (hwritten : (t.writeImage i directory radiometry).2.result = .error fault) :
    (t.writeImage i directory radiometry).1 = t ∨
      (t.writeImage i directory radiometry).1.Refuses fault := by
  unfold FileTree.writeImage at hwritten ⊢
  cases hfiles : i.productFiles directory radiometry with
  | error e => exact .inl rfl
  | ok made =>
      obtain ⟨name, files⟩ := made
      rw [hfiles] at hwritten
      simp only [Noted.result_bind, Noted.result_note] at hwritten
      cases hstored : (t.storeAll files).2.result with
      | ok stored =>
          rw [hstored] at hwritten
          cases hwritten
      | error e =>
          rw [hstored] at hwritten
          cases hwritten
          exact .inr (FileTree.refuses_of_storeAll hstored)

/-- An image that is written is stored as a whole product. -/
theorem isStored_of_writeImage
    (hwritten : (t.writeImage i directory radiometry).2.result = .ok name) :
    ∃ c place, i.IsExportable c ∧ i.productName directory c = .ok name ∧ name.IsWritable ∧
      (i.productLayout name c).IsStored place
        (i.prologue (radiometry.getD (i.ownRadiometry c)))
        (i.storedSamples (segmentHeight i.lines)) (t.writeImage i directory radiometry).1 t := by
  obtain ⟨files, hproduct, hstored⟩ := writeImage_eq_ok_iff.mp hwritten
  obtain ⟨c, hi, hname, hfiles⟩ := productFiles_eq_ok_iff.mp hproduct
  have hprologue := prologue_mem_writeCalls_iff.mpr
    (rfl : i.prologue (radiometry.getD (i.ownRadiometry c)) = _)
  obtain ⟨file, hfile, hpath⟩ := ProductLayout.checkPath_of_storeAll hfiles hstored hprologue
  rw [ProductLayout.path_of_fileOf hfile] at hpath
  have hwritable : (i.productLayout name c).name.IsWritable :=
    isWritable_of_productName hname hpath
  obtain ⟨place, hfolder⟩ :=
    ProductLayout.exists_isFolder_of_storeAll hwritable hfiles hstored hprologue
  have hreceived := ProductLayout.hasReceived_storeAll hwritable hfolder
    (hi.nodup_writeCalls radiometry) hfiles hstored
  rw [writeImage_tree hproduct]
  exact ⟨c, place, hi, hname, hwritable, hi.isStored hname hreceived hwritable⟩

end Image

/-- Writes images as products into a directory, with a radiometry of its own or with theirs. -/
structure Exporter where
  directory : String
  radiometry : Option Radiometry

namespace Exporter

/-- What an exporter changes: the files, and the names of the products that it has written. -/
structure State where
  tree : FileTree
  written : List ProductName

/-- Makes a file and stores it. -/
def put (made : Except Error NewFile) : ExceptT Error (StateM State) Unit := do
  let file ← ofExcept made
  let s ← get
  let next ← ofExcept ((s.tree.write file.path file.bytes).mapError fun fault =>
    Error.file file.path (.io fault))
  modify fun s => { s with tree := next }

/-- Writes an image as a product, file by file, and remembers the product's name. -/
def accept (e : Exporter) (i : Image) : ExceptT Error (StateM State) Unit := do
  let c ← ofExcept i.exportChannel
  let name ← ofExcept (i.productName e.directory c)
  let layout := i.productLayout name c
  let height := Image.segmentHeight i.lines
  put (layout.prologueFile (i.prologue (e.radiometry.getD (i.ownRadiometry c))))
  put (.ok (layout.epilogueFile ⟨.zero⟩))
  forM (List.range (i.lines / height)) fun segment =>
    put (layout.segmentFile (.ofNat (segment + 1)) (i.storedSamples height segment))
  modify fun s => { s with written := s.written ++ [name] }

variable {i : Image} {c : Channel} {name : ProductName} {l : ProductLayout} {calls : List WriteCall}
  {files : List NewFile}

/-- A file that cannot be made leaves the state alone, and one that can be is stored. -/
theorem put_run (made : Except Error NewFile) (s : State) :
    (put made).run s =
      match made with
      | .ok file =>
          ((s.tree.store file).2.result.map fun _ => (), { s with tree := (s.tree.store file).1 })
      | .error e => (.error e, s) := by
  rw [put, Outcome.run_ofExcept_bind]
  cases made with
  | error e => rfl
  | ok file =>
      simp only [Outcome.run_get_bind, Outcome.run_ofExcept_bind, FileTree.store]
      cases s.tree.write file.path file.bytes with
      | error fault => rfl
      | ok next => rfl

/-- Files that can all be made are stored one after the other. -/
theorem forM_put_run
    (hfiles : List.Forall₂ (fun call file => l.fileOf call = .ok file) calls files) (s : State) :
    (forM calls fun call => put (l.fileOf call)).run s =
      ((s.tree.storeAll files).2.result, { s with tree := (s.tree.storeAll files).1 }) := by
  induction hfiles generalizing s with
  | nil => rfl
  | @cons call file calls files hfile _ ih =>
      rw [List.forM_cons, Outcome.run_bind, put_run, hfile]
      cases hfirst : (s.tree.store file).2.result with
      | error e => simp only [FileTree.storeAll, hfirst, Outcome.error_map]
      | ok path => simp only [FileTree.storeAll, hfirst, Outcome.ok_map, ih]

/-- The files of an image are put one after the other, in the order of its calls. -/
theorem accept_eq (e : Exporter) (i : Image) : e.accept i = (do
    let c ← ofExcept i.exportChannel
    let name ← ofExcept (i.productName e.directory c)
    forM (i.writeCalls c e.radiometry) fun call => put ((i.productLayout name c).fileOf call)
    modify fun s => { s with written := s.written ++ [name] }) := by
  simp only [accept, Image.writeCalls, List.forM_cons, List.forM_map, bind_assoc,
    ProductLayout.fileOf]

/-- **An exporter writes images as `FileTree.writeImage` does**, and remembers those that it wrote. -/
theorem accept_run (e : Exporter) (i : Image) (s : State) :
    (e.accept i).run s =
      let (tree, outcome) := s.tree.writeImage i e.directory e.radiometry
      match outcome.result with
      | .ok name => (.ok (), ⟨tree, s.written ++ [name]⟩)
      | .error fault => (.error fault, ⟨tree, s.written⟩) := by
  rw [accept_eq, Outcome.run_ofExcept_bind]
  cases hchannel : i.exportChannel with
  | error fault => simp only [FileTree.writeImage, Image.productFiles, hchannel, Outcome.error_bind,
      Noted.result_lift]
  | ok c =>
      simp only [Outcome.run_ofExcept_bind]
      cases hname : i.productName e.directory c with
      | error fault => simp only [FileTree.writeImage, Image.productFiles, hchannel, hname,
          Outcome.ok_bind, Outcome.error_bind, Noted.result_lift]
      | ok name =>
          have hi := Image.isExportable_of_exportChannel hchannel
          cases hprologue : (i.productLayout name c).prologueFile
              (i.prologue (e.radiometry.getD (i.ownRadiometry c))) with
          | error fault =>
              simp only [Image.writeCalls, List.forM_cons, bind_assoc, Outcome.run_bind, put_run,
                ProductLayout.fileOf, hprologue]
              simp only [FileTree.writeImage, Image.productFiles, hchannel, hname, hprologue,
                Outcome.ok_bind, Outcome.error_bind, Noted.result_lift]
          | ok prologue =>
              -- the time in the prologue is the one that every segment has to code
              have hmade : (i.productLayout name c).fileOf (.prologue
                  (i.prologue (e.radiometry.getD (i.ownRadiometry c)))) = .ok prologue := hprologue
              obtain ⟨code, hcode⟩ := ProductLayout.fits_of_fileOf hmade
              obtain ⟨files, hfiles⟩ := hi.exists_files name e.radiometry hcode
              have hproduct := Image.productFiles_eq_ok_iff.mpr ⟨c, hi, hname, hfiles⟩
              simp only [Outcome.run_bind, forM_put_run hfiles, FileTree.writeImage, hproduct,
                Noted.result_bind]
              cases (s.tree.storeAll files).2.result with
              | error fault => rfl
              | ok stored => rfl

theorem accept_run_of_writeImage {t : FileTree} {directory : String}
    {radiometry : Option Radiometry} (written : List ProductName)
    (hwritten : (t.writeImage i directory radiometry).2.result = .ok name) :
    ∃ tree, (accept ⟨directory, radiometry⟩ i).run ⟨t, written⟩ =
      (.ok (), ⟨tree, written ++ [name]⟩) := by
  refine ⟨(t.writeImage i directory radiometry).1, ?_⟩
  rw [accept_run]
  simp only [hwritten]

/-- **An image whose time has no code is refused**, and nothing is written of it. -/
theorem accept_run_of_no_code (hcode : i.time.toCode.isOk = false) (e : Exporter) (s : State) :
    ∃ fault, (e.accept i).run s = (.error fault, s) := by
  rw [accept_run, FileTree.writeImage]
  cases hproduct : i.productFiles e.directory e.radiometry with
  | error fault => exact ⟨fault, rfl⟩
  | ok made =>
      obtain ⟨c, -, -, hfiles⟩ := Image.productFiles_eq_ok_iff.mp hproduct
      obtain ⟨file, _, hfile, -⟩ := List.forall₂_cons_left_iff.mp hfiles
      obtain ⟨code, htime⟩ := ProductLayout.fits_of_fileOf hfile
      have htime : i.time.toCode = .ok code := htime
      rw [htime] at hcode
      cases hcode

/-- **A product is written as a whole or not at all.**  An exporter that refuses an image has not
written its name down, and has left the files as they were, unless the file system refused one.

An exporter that takes an image has written down one name more.  It has stored the prologue and the
epilogue of this product and its segments from the first to the last one planned, each of which says
how many these are, and their lines are those of the image.  All other files are as they were. -/
theorem written_whole_or_not_at_all (e : Exporter) (i : Image) (s : State) :
    (∃ fault tree, (e.accept i).run s = (.error fault, ⟨tree, s.written⟩) ∧
      (tree = s.tree ∨ tree.Refuses fault)) ∨
    ∃ c name place tree, (e.accept i).run s = (.ok (), ⟨tree, s.written ++ [name]⟩) ∧
      i.IsExportable c ∧ i.productName e.directory c = .ok name ∧
      (i.productLayout name c).plannedEnd.toNat * (i.productLayout name c).segmentLines.toNat =
        i.lines ∧
      (i.productLayout name c).IsStored place
        (i.prologue (e.radiometry.getD (i.ownRadiometry c)))
        (i.storedSamples (Image.segmentHeight i.lines)) tree s.tree := by
  rw [accept_run]
  cases hwritten : (s.tree.writeImage i e.directory e.radiometry).2.result with
  | error fault =>
      simp only [hwritten]
      exact .inl ⟨fault, _, rfl, Image.writeImage_eq_error hwritten⟩
  | ok name =>
      simp only [hwritten]
      obtain ⟨c, place, hi, hname, -, hstored⟩ := Image.isStored_of_writeImage hwritten
      exact .inr ⟨c, name, place, _, rfl, hi, hname, hi.plannedLines name, hstored⟩

/-- Four pixels are taken by an exporter to `d`.  At a time that has no code they are refused, which
is seen only when the prologue is made, behind all other checks. -/
theorem fourPixels_written_or_refused :
    (∃ place tree, (accept ⟨"d", none⟩ Image.fourPixels).run ⟨ProductLayout.oneDirectory, []⟩ =
        (.ok (), ⟨tree, [Image.fourPixelsName "d"]⟩) ∧
      (Image.fourPixels.productLayout (Image.fourPixelsName "d") .vis006).IsStored place
        (Image.fourPixels.prologue (Image.fourPixels.ownRadiometry .vis006))
        (Image.fourPixels.storedSamples (Image.segmentHeight Image.fourPixels.lines)) tree
        ProductLayout.oneDirectory) ∧
    ∃ fault, (accept ⟨"d", none⟩ { Image.fourPixels with time := ⟨2006, 13, 14, 12, 0, 0⟩ }).run
      ⟨ProductLayout.oneDirectory, []⟩ = (.error fault, ⟨ProductLayout.oneDirectory, []⟩) := by
  constructor
  · obtain ⟨tree, hrun⟩ := accept_run_of_writeImage []
      (@Image.writeImage_fourPixels none ["w", "d"] "d" rfl ⟨rfl, rfl⟩ rfl)
    rcases written_whole_or_not_at_all ⟨"d", none⟩ Image.fourPixels
      ⟨ProductLayout.oneDirectory, []⟩ with ⟨fault, _, hfault, -⟩ | hwhole
    · rw [hrun] at hfault
      cases hfault
    · obtain ⟨c, name, place, _, hsame, hi, -, -, hstored⟩ := hwhole
      have hchannel : c = .vis006 :=
        Option.some.inj (hi.channel.symm.trans Image.isExportable_fourPixels.channel)
      subst hchannel
      rw [hrun] at hsame
      cases hsame
      exact ⟨place, tree, hrun, hstored⟩
  · exact accept_run_of_no_code (by decide) _ _

end Exporter

end SeviriImagery
