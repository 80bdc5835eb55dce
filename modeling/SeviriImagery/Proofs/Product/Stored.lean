import SeviriImagery.Proofs.Product.Written

/-!
# Files of several products in one directory

Products may be written one after the other into one directory, and their files may have names in
common: those of a product that is written again, and the prologue and the epilogue of products that
differ in the second identifier only.  So under each name stands what was written last under it,
whatever product that was for (`FileTree.HasStored`).  One file more keeps this true
(`FileTree.HasStored.store`), and so do all the files of a product (`FileTree.HasStored.storeAll`).
-/

namespace SeviriImagery

/-- A file that is written, and the layout of the product that it is for. -/
structure ProductWrite where
  layout : ProductLayout
  call : WriteCall

namespace ProductWrite

/-- The name under which a file is written. -/
def fileName (w : ProductWrite) : String := w.layout.name.memberName w.call.member

/-- The last of some files that is written under a name. -/
def last (writes : List ProductWrite) (file : String) : Option ProductWrite :=
  writes.reverse.find? fun w => w.fileName = file

variable {writes : List ProductWrite} {w : ProductWrite} {file : String}

/-- What is written later counts. -/
theorem last_append (earlier later : List ProductWrite) (file : String) :
    last (earlier ++ later) file = (last later file).or (last earlier file) := by
  rw [last, List.reverse_append, List.find?_append]
  rfl

/-- The last write of a file is one of the writes, and of that file. -/
theorem mem_of_last (hlast : last writes file = some w) : w ∈ writes ∧ w.fileName = file :=
  ⟨List.mem_reverse.mp (List.mem_of_find?_eq_some hlast), by simpa using List.find?_some hlast⟩

/-- A file that was written was last written at some time. -/
theorem exists_last (hw : w ∈ writes) : ∃ latest, last writes w.fileName = some latest := by
  rw [← Option.isSome_iff_exists, last, List.find?_isSome]
  exact ⟨w, List.mem_reverse.mpr hw, by simp⟩

/-- A file has no last write if it was never written. -/
theorem last_eq_none_iff : last writes file = none ↔ ∀ w ∈ writes, w.fileName ≠ file := by
  simp [last]

/-- Of the files of one product the last under a name is the last of this kind. -/
theorem last_map {l : ProductLayout} (hname : l.name.IsWritable) (calls : List WriteCall)
    (m : ProductMember) :
    last (calls.map (ProductWrite.mk l)) (l.name.memberName m) =
      (WriteCall.last calls m).map (ProductWrite.mk l) := by
  have hsame (call : WriteCall) :
      ((ProductWrite.mk l call).fileName = l.name.memberName m) = (call.member = m) :=
    propext ⟨ProductName.memberName_inj hname, congrArg l.name.memberName⟩
  rw [last, ← List.map_reverse, List.find?_map, WriteCall.last]
  simp only [Function.comp_def, hsame]

end ProductWrite

namespace FileTree

/-- A directory holds of each file what was written last under its name, and nothing else. -/
structure HasStored (t : FileTree) (place : Place) (writes : List ProductWrite) : Prop where
  wellFormed : t.WellFormed
  written : ∀ file w, ProductWrite.last writes file = some w → ∃ made : NewFile,
    w.layout.fileOf w.call = .ok made ∧ t.entryAt? (place ++ [file]) = some (.file made.bytes)
  unwritten : ∀ file, ProductWrite.last writes file = none → t.entryAt? (place ++ [file]) = none

variable {t : FileTree} {place : Place} {writes : List ProductWrite} {l : ProductLayout}
  {call : WriteCall} {made : NewFile}

/-- An empty folder holds what no write at all has left. -/
theorem hasStored_nil (hwf : t.WellFormed) (hempty : t.children place = []) :
    t.HasStored place [] where
  wellFormed := hwf
  written := by
    intro file w hlast
    cases hlast
  unwritten := fun file _ => entryAt?_of_children_nil hwf hempty file

namespace HasStored

/-- No directory stands where a file is written. -/
theorem entryAt?_ne_directory (hstored : t.HasStored place writes) (file : String) :
    t.entryAt? (place ++ [file]) ≠ some .directory := by
  cases hlast : ProductWrite.last writes file with
  | none =>
      rw [hstored.unwritten file hlast]
      exact nofun
  | some w =>
      obtain ⟨made, -, hentry⟩ := hstored.written file w hlast
      rw [hentry]
      exact nofun

/-- What stands in the directory was written there. -/
theorem exists_write (hstored : t.HasStored place writes) {file : String} {entry : Entry}
    (hentry : t.entryAt? (place ++ [file]) = some entry) :
    ∃ w ∈ writes, w.fileName = file ∧ ∃ made : NewFile,
      w.layout.fileOf w.call = .ok made ∧ entry = .file made.bytes := by
  cases hlast : ProductWrite.last writes file with
  | none =>
      rw [hstored.unwritten file hlast] at hentry
      cases hentry
  | some w =>
      obtain ⟨hw, hname⟩ := ProductWrite.mem_of_last hlast
      obtain ⟨made, hmade, hthere⟩ := hstored.written file w hlast
      rw [hthere] at hentry
      exact ⟨w, hw, hname, made, hmade, (Option.some.inj hentry).symm⟩

/-- **One file more** is written, and the others are left as they are. -/
theorem store (hstored : t.HasStored place writes) (hsound : l.IsSound)
    (hfolder : t.IsFolder l.name.directory place) (hmade : l.fileOf call = .ok made) :
    (t.store made).2.result = .ok made.path ∧
      (t.store made).1.HasStored place (writes ++ [⟨l, call⟩]) ∧ (t.store made).1.Extends t := by
  have hfree := hstored.entryAt?_ne_directory (l.name.memberName call.member)
  rw [ProductLayout.store_eq hsound hfolder hmade hfree]
  refine ⟨rfl, ⟨wellFormed_set hstored.wellFormed _ _, ?_, ?_⟩, extends_set hfree made.bytes⟩
  · intro file w hlast
    rw [ProductWrite.last_append] at hlast
    rw [entryAt?_set_child]
    by_cases hown : file = l.name.memberName call.member
    · have hnew : ProductWrite.last [⟨l, call⟩] file = some ⟨l, call⟩ := by
        simp [ProductWrite.last, ProductWrite.fileName, hown]
      rw [hnew, Option.some_or, Option.some.injEq] at hlast
      subst hlast
      exact ⟨made, hmade, by rw [if_pos hown]⟩
    · have hnew : ProductWrite.last [⟨l, call⟩] file = none :=
        ProductWrite.last_eq_none_iff.mpr (by simpa [ProductWrite.fileName] using Ne.symm hown)
      rw [hnew, Option.none_or] at hlast
      rw [if_neg hown]
      exact hstored.written file w hlast
  · intro file hlast
    rw [ProductWrite.last_append, Option.or_eq_none_iff] at hlast
    have hother : file ≠ l.name.memberName call.member :=
      (ProductWrite.last_eq_none_iff.mp hlast.1 _ (List.mem_singleton_self _)).symm
    rw [entryAt?_set_child, if_neg hother]
    exact hstored.unwritten file hlast.2

/-- **The files of a product** are written one after the other. -/
theorem storeAll (hstored : t.HasStored place writes) (hsound : l.IsSound)
    (hfolder : t.IsFolder l.name.directory place) {calls : List WriteCall} {files : List NewFile}
    (hfiles : List.Forall₂ (fun call file => l.fileOf call = .ok file) calls files) :
    (t.storeAll files).2.result = .ok () ∧
      (t.storeAll files).1.HasStored place (writes ++ calls.map (ProductWrite.mk l)) ∧
        (t.storeAll files).1.Extends t := by
  induction hfiles generalizing t writes with
  | nil =>
      rw [List.map_nil, List.append_nil]
      exact ⟨rfl, hstored, .refl t⟩
  | cons hmade _ ih =>
      obtain ⟨hresult, hnext, hextends⟩ := hstored.store hsound hfolder hmade
      obtain ⟨hresults, hend, hgrown⟩ := ih hnext (isFolder_of_extends hextends hfolder)
      rw [List.append_assoc, List.singleton_append] at hend
      simp only [FileTree.storeAll, hresult, List.map_cons]
      exact ⟨hresults, hend, hgrown.trans hextends⟩

end HasStored

end FileTree

end SeviriImagery
