import Mathlib
import SeviriImagery.FileTree
import SeviriImagery.Proofs.Outcome
import SeviriImagery.Proofs.Path

/-!
# Files in a directory

A directory is named by a path, and a file in it by the path with the file's name joined to it. This
file says what becomes of a tree when such files are written (`FileTree.write_join`): the file is
there, and everything else is as it was.  Nothing else can have become of a tree in which a file was
written (`FileTree.exists_of_write_join`).  A path that leads somewhere leads there still when a tree
has grown (`FileTree.Extends`).  What stands in a directory is what it holds by name
(`FileTree.mem_children_iff_entryAt?`), for no operation puts two entries in one place
(`FileTree.WellFormed`).
-/

namespace SeviriImagery

namespace FileTree

/-- A tree in which no two entries have one place. -/
def WellFormed (t : FileTree) : Prop := (t.entries.map Prod.fst).Nodup

/-- A tree that has grown: what was a directory is one, and where something stood something
stands. -/
structure Extends (t s : FileTree) : Prop where
  workingDirectory : t.workingDirectory = s.workingDirectory
  directory : ∀ p, s.entryAt? p = some .directory → t.entryAt? p = some .directory
  place : ∀ p, (s.entryAt? p).isSome → (t.entryAt? p).isSome

/-- A path of a directory, and its place. -/
def IsFolder (t : FileTree) (directory : String) (place : Place) : Prop :=
  (Path.names directory).foldlM t.follow (t.start directory) = .ok place ∧
    t.entryAt? place = some .directory

variable {t s : FileTree} {place next : Place} {name directory : String}

theorem Extends.refl (t : FileTree) : t.Extends t := ⟨rfl, fun _ h => h, fun _ h => h⟩

theorem Extends.trans {u : FileTree} (hts : t.Extends s) (hsu : s.Extends u) : t.Extends u :=
  ⟨hts.workingDirectory.trans hsu.workingDirectory, fun p h => hts.directory p (hsu.directory p h),
    fun p h => hts.place p (hsu.place p h)⟩

/-- A name that leads somewhere leads there in a tree that has grown. -/
theorem follow_of_extends (hext : t.Extends s) (hfollow : s.follow place name = .ok next) :
    t.follow place name = .ok next := by
  unfold follow at hfollow ⊢
  cases hentry : s.entryAt? place with
  | none => rw [hentry] at hfollow; cases hfollow
  | some e =>
      rw [hentry] at hfollow
      cases e with
      | file bytes => cases hfollow
      | directory =>
          rw [hext.directory place hentry]
          simp only at hfollow ⊢
          by_cases hstay : name = "" ∨ name = "."
          · rwa [if_pos hstay] at hfollow ⊢
          rw [if_neg hstay] at hfollow ⊢
          by_cases hup : name = ".."
          · rwa [if_pos hup] at hfollow ⊢
          rw [if_neg hup] at hfollow ⊢
          by_cases hlong : nameLimit < name.utf8ByteSize
          · rw [if_pos hlong] at hfollow
            cases hfollow
          rw [if_neg hlong] at hfollow ⊢
          by_cases hthere : (s.entryAt? (place ++ [name])).isSome
          · rw [if_pos hthere] at hfollow
            rw [if_pos (hext.place _ hthere)]
            exact hfollow
          · rw [if_neg hthere] at hfollow
            cases hfollow

/-- Names that lead somewhere lead there in a tree that has grown. -/
theorem walk_of_extends (hext : t.Extends s) {names : List String}
    (hwalk : names.foldlM s.follow place = .ok next) : names.foldlM t.follow place = .ok next := by
  induction names generalizing place with
  | nil => exact hwalk
  | cons name names ih =>
      rw [List.foldlM_cons] at hwalk ⊢
      obtain ⟨middle, hfirst, hrest⟩ := Outcome.bind_eq_ok_iff.mp hwalk
      rw [follow_of_extends hext hfirst]
      exact ih hrest

/-- A directory is one in a tree that has grown. -/
theorem isFolder_of_extends (hext : t.Extends s) (hfolder : s.IsFolder directory place) :
    t.IsFolder directory place := by
  have hstart : t.start directory = s.start directory := by
    rw [start, start, hext.workingDirectory]
  exact ⟨by rw [hstart]; exact walk_of_extends hext hfolder.1, hext.directory _ hfolder.2⟩

theorem isDirectory_of_follow (hfollow : t.follow place name = .ok next) :
    t.entryAt? place = some .directory := by
  unfold follow at hfollow
  cases hentry : t.entryAt? place with
  | none => rw [hentry] at hfollow; cases hfollow
  | some e =>
      cases e with
      | directory => rfl
      | file bytes => rw [hentry] at hfollow; cases hfollow

/-- An empty name leads nowhere else, and neither does a dot. -/
theorem follow_stay (hentry : t.entryAt? place = some .directory) (hstay : name = "" ∨ name = ".") :
    t.follow place name = .ok place := by
  simp only [follow, hentry, if_pos hstay]

/-- A name that is no step of its own. -/
structure IsPlainName (name : String) : Prop where
  not_empty : name ≠ ""
  not_here : name ≠ "."
  not_up : name ≠ ".."
  no_slash : '/' ∉ name.toList
  fits : name.utf8ByteSize ≤ nameLimit

instance (name : String) : Decidable (IsPlainName name) :=
  decidable_of_iff (name ≠ "" ∧ name ≠ "." ∧ name ≠ ".." ∧ '/' ∉ name.toList ∧
      name.utf8ByteSize ≤ nameLimit)
    ⟨fun h => ⟨h.1, h.2.1, h.2.2.1, h.2.2.2.1, h.2.2.2.2⟩,
      fun h => ⟨h.not_empty, h.not_here, h.not_up, h.no_slash, h.fits⟩⟩

/-- The name of something in a directory leads to it. -/
theorem follow_child (hentry : t.entryAt? place = some .directory) (hname : IsPlainName name)
    (hthere : (t.entryAt? (place ++ [name])).isSome) :
    t.follow place name = .ok (place ++ [name]) := by
  have hstay : ¬(name = "" ∨ name = ".") := not_or.mpr ⟨hname.not_empty, hname.not_here⟩
  simp only [follow, hentry, if_neg hstay, if_neg hname.not_up,
    if_neg (Nat.not_lt.mpr hname.fits), if_pos hthere]

/-- The folders of a directory lead to it. -/
theorem walk_folders (hfolder : t.IsFolder directory place) :
    (Path.folders directory).foldlM t.follow (t.start directory) = .ok place := by
  obtain ⟨hwalk, hentry⟩ := hfolder
  rcases Path.names_eq_folders directory with hnames | hnames
  · rwa [hnames] at hwalk
  · rw [hnames, List.foldlM_append] at hwalk
    obtain ⟨middle, hfolders, hlast⟩ := Outcome.bind_eq_ok_iff.mp hwalk
    rw [List.foldlM_cons] at hlast
    obtain ⟨same, hempty, hsame⟩ := Outcome.bind_eq_ok_iff.mp hlast
    rw [follow_stay (isDirectory_of_follow hempty) (.inl rfl)] at hempty
    cases hempty
    cases hsame
    exact hfolders

/-- A directory to which its folders lead. -/
theorem isFolder_of_walk_folders
    (hwalk : (Path.folders directory).foldlM t.follow (t.start directory) = .ok place)
    (hentry : t.entryAt? place = some .directory) : t.IsFolder directory place := by
  refine ⟨?_, hentry⟩
  rcases Path.names_eq_folders directory with hnames | hnames
  · rwa [hnames]
  · rw [hnames, List.foldlM_append, hwalk, Outcome.ok_bind, List.foldlM_cons,
      follow_stay hentry (.inl rfl)]
    rfl

/-- A path is that of one directory. -/
theorem IsFolder.unique {other : Place} (hfolder : t.IsFolder directory place)
    (hother : t.IsFolder directory other) : other = place :=
  Except.ok.inj (hother.1.symm.trans hfolder.1)

/-- A name joined to a directory is looked for in it. -/
theorem resolve_join (hfolder : t.IsFolder directory place) (hname : '/' ∉ name.toList)
    (hpath : checkPath (Path.join directory name) = .ok ()) :
    t.resolve (Path.join directory name) = t.follow place name := by
  have hstart : t.start (Path.join directory name) = t.start directory := by
    rw [start, start, Path.isAbsolute_join directory hname]
  rw [resolve, hpath, Outcome.ok_bind, Path.names_join directory hname, List.foldlM_append, hstart,
    walk_folders hfolder, Outcome.ok_bind, List.foldlM_cons]
  exact bind_pure _

/-- Where an entry is put it stands, and elsewhere nothing changes. -/
theorem lookup_put (place p : Place) (entry : Entry) (entries : List (Place × Entry)) :
    (put place entry entries).lookup p = if p = place then some entry else entries.lookup p := by
  induction entries with
  | nil =>
      by_cases hp : p = place
      · simp [put, hp]
      · simp [put, hp]
  | cons first rest ih =>
      obtain ⟨q, e⟩ := first
      by_cases hq : q = place
      · subst hq
        rw [put, if_pos rfl, List.lookup_cons, List.lookup_cons]
        by_cases hp : p = q
        · simp [hp]
        · simp [hp, beq_eq_false_iff_ne.mpr hp]
      · rw [put, if_neg hq, List.lookup_cons, List.lookup_cons, ih]
        by_cases hp : p = q
        · subst hp
          simp [hq]
        · simp [beq_eq_false_iff_ne.mpr hp]

/-- What stands in a tree in which something was put. -/
theorem entryAt?_set (t : FileTree) (place p : Place) (entry : Entry) (hplace : place ≠ []) :
    (t.set place entry).entryAt? p = if p = place then some entry else t.entryAt? p := by
  unfold entryAt? set
  by_cases hroot : p.isEmpty
  · have hp : p = [] := by simpa using hroot
    rw [if_pos hroot, if_pos hroot, if_neg]
    rw [hp]
    exact Ne.symm hplace
  · rw [if_neg hroot, if_neg hroot, lookup_put]

/-- What stands in a directory in which something was put. -/
theorem entryAt?_set_child (t : FileTree) (place : Place) (name other : String) (entry : Entry) :
    (t.set (place ++ [name]) entry).entryAt? (place ++ [other]) =
      if other = name then some entry else t.entryAt? (place ++ [other]) := by
  rw [entryAt?_set t _ _ _ (by simp)]
  simp only [List.append_cancel_left_eq, List.cons.injEq, and_true]

theorem map_fst_put (place : Place) (entry : Entry) (entries : List (Place × Entry)) :
    (put place entry entries).map Prod.fst =
      if place ∈ entries.map Prod.fst then entries.map Prod.fst
      else entries.map Prod.fst ++ [place] := by
  induction entries with
  | nil => simp [put]
  | cons first rest ih =>
      obtain ⟨q, e⟩ := first
      by_cases hq : q = place
      · simp [put, hq]
      · rw [put, if_neg hq, List.map_cons, ih]
        by_cases hmem : place ∈ rest.map Prod.fst
        · rw [if_pos hmem, List.map_cons, if_pos (List.mem_cons_of_mem _ hmem)]
        · rw [if_neg hmem, List.map_cons, if_neg, List.cons_append]
          rw [List.mem_cons, not_or]
          exact ⟨Ne.symm hq, hmem⟩

theorem wellFormed_set (hwf : t.WellFormed) (place : Place) (entry : Entry) :
    (t.set place entry).WellFormed := by
  unfold WellFormed set at *
  rw [map_fst_put]
  split
  · exact hwf
  · rename_i hnew
    exact List.Nodup.append hwf (List.nodup_singleton place) (by simpa using hnew)

theorem wellFormed_empty (workingDirectory : Place) : (empty workingDirectory).WellFormed := by
  unfold WellFormed empty
  rw [List.map_map]
  refine List.Nodup.map_on ?_ List.nodup_range
  intro a ha b hb hsame
  rw [List.mem_range] at ha hb
  have hlength := congrArg List.length hsame
  simp only [Function.comp_apply, List.length_take] at hlength
  omega

theorem wellFormed_createDirectories (hwf : t.WellFormed) (path : String) :
    (t.createDirectories path).WellFormed := by
  unfold createDirectories
  generalize t.start path = place
  induction Path.names path generalizing t place with
  | nil => exact hwf
  | cons name names ih =>
      simp only [List.foldl_cons]
      cases t.follow place name with
      | ok next => exact ih hwf next
      | error fault => exact ih (wellFormed_set hwf _ _) _

theorem wellFormed_write (hwf : t.WellFormed) {path : String} {bytes : List UInt8}
    (hwrite : t.write path bytes = .ok s) : s.WellFormed := by
  obtain ⟨_, -, hwrite⟩ := Outcome.bind_eq_ok_iff.mp hwrite
  obtain ⟨place, -, hwrite⟩ := Outcome.bind_eq_ok_iff.mp hwrite
  simp only at hwrite
  split at hwrite
  · cases hwrite
  · cases hwrite
    exact wellFormed_set hwf place (.file bytes)

/-- What a directory holds stands in it. -/
theorem mem_children_iff {entry : Entry} :
    (name, entry) ∈ t.children place ↔ (place ++ [name], entry) ∈ t.entries := by
  unfold children
  rw [List.mem_filterMap]
  constructor
  · intro hgiven
    obtain ⟨⟨q, e⟩, hmem, hchild⟩ := hgiven
    simp only at hchild
    split at hchild
    · rename_i n hlast
      split at hchild
      · rename_i hdirectory
        cases hchild
        rwa [← hdirectory, List.dropLast_append_getLast? name hlast]
      · cases hchild
    · cases hchild
  · intro hmem
    exact ⟨_, hmem, by simp⟩

/-- Where places are apart, what stands at a place is what is found there. -/
theorem lookup_eq_some_iff_mem {entries : List (Place × Entry)} {p : Place} {entry : Entry}
    (hwf : (entries.map Prod.fst).Nodup) :
    entries.lookup p = some entry ↔ (p, entry) ∈ entries := by
  induction entries with
  | nil => simp
  | cons first rest ih =>
      obtain ⟨q, e⟩ := first
      rw [List.map_cons, List.nodup_cons] at hwf
      by_cases hq : p = q
      · subst hq
        have hrest : (p, entry) ∉ rest := fun hmem => hwf.1 (List.mem_map.mpr ⟨_, hmem, rfl⟩)
        simp [hrest, eq_comm]
      · rw [List.lookup_cons, beq_eq_false_iff_ne.mpr hq, List.mem_cons]
        simp [ih hwf.2, hq]

/-- In a well-formed tree a directory holds just what stands in it. -/
theorem mem_children_iff_entryAt? (hwf : t.WellFormed) {entry : Entry} :
    (name, entry) ∈ t.children place ↔ t.entryAt? (place ++ [name]) = some entry := by
  have hroot : (place ++ [name]).isEmpty = false := by simp
  rw [mem_children_iff, entryAt?, hroot, if_neg (by simp), lookup_eq_some_iff_mem hwf]

/-- Nothing stands in an empty directory. -/
theorem entryAt?_of_children_nil (hwf : t.WellFormed) (hempty : t.children place = [])
    (name : String) : t.entryAt? (place ++ [name]) = none := by
  cases hentry : t.entryAt? (place ++ [name]) with
  | none => rfl
  | some entry =>
      have hmem := (mem_children_iff_entryAt? hwf).mpr hentry
      rw [hempty] at hmem
      cases hmem

/-- The name of a place in a directory. -/
def nameIn (directory place : Place) : Option String :=
  match place.getLast? with
  | some name => if place.dropLast = directory then some name else none
  | none => none

/-- A name in a directory is the name of one place. -/
theorem eq_of_nameIn {directory p : Place} (hname : nameIn directory p = some name) :
    p = directory ++ [name] := by
  unfold nameIn at hname
  split at hname
  · rename_i n hlast
    split at hname
    · rename_i hdirectory
      cases hname
      rw [← hdirectory, List.dropLast_append_getLast? name hlast]
    · cases hname
  · cases hname

/-- No two things in a directory of a well-formed tree have one name. -/
theorem nodup_children (hwf : t.WellFormed) (place : Place) :
    ((t.children place).map Prod.fst).Nodup := by
  have hnames : (t.children place).map Prod.fst =
      (t.entries.map Prod.fst).filterMap (nameIn place) := by
    unfold children
    rw [List.map_filterMap, List.filterMap_map]
    congr 1
    funext e
    unfold nameIn
    simp only [Function.comp_apply]
    cases e.1.getLast? with
    | none => rfl
    | some name => by_cases hdirectory : e.1.dropLast = place <;> simp [hdirectory]
  rw [hnames]
  refine List.Nodup.filterMap ?_ hwf
  intro p q name hp hq
  rw [eq_of_nameIn hp, eq_of_nameIn hq]

/-- A path that does not end with a slash is left as it is. -/
theorem withoutEndSlashes_join (directory : String) (hname : IsPlainName name) :
    Path.withoutEndSlashes (Path.join directory name) = Path.join directory name := by
  obtain ⟨front, hfront⟩ : ∃ front, (Path.join directory name).toList = front ++ name.toList := by
    unfold Path.join
    split
    · exact ⟨[], rfl⟩
    · split
      · exact ⟨directory.toList, String.toList_append⟩
      · exact ⟨(directory ++ "/").toList, String.toList_append⟩
  obtain ⟨before, last, hchars⟩ := List.eq_nil_or_concat name.toList |>.resolve_left
    (Path.toList_ne_nil hname.not_empty)
  have hlast : last ≠ '/' := by
    intro hsame
    subst hsame
    have hslash := hname.no_slash
    simp [hchars] at hslash
  have hreverse : (Path.join directory name).toList.reverse =
      last :: (front ++ before).reverse := by
    rw [hfront, hchars]
    simp
  rw [Path.withoutEndSlashes, hreverse, List.dropWhile_cons_of_neg (by simpa using hlast)]
  simp only [← hreverse, List.reverse_reverse, String.ofList_toList]

/-- **Writing a file into a directory** puts it there and changes nothing else. -/
theorem write_join (hfolder : t.IsFolder directory place) (hname : IsPlainName name)
    (hpath : checkPath (Path.join directory name) = .ok ())
    (hfree : t.entryAt? (place ++ [name]) ≠ some .directory) (bytes : List UInt8) :
    t.write (Path.join directory name) bytes = .ok (t.set (place ++ [name]) (.file bytes)) := by
  have hstart : t.start (Path.join directory name) = t.start directory := by
    rw [start, start, Path.isAbsolute_join directory hname.no_slash]
  have hplace : t.newPlace (Path.join directory name) = .ok (place ++ [name]) := by
    have hlast : ¬(name = "" ∨ name = "." ∨ name = "..") := by
      simp [hname.not_empty, hname.not_here, hname.not_up]
    have hstay : t.follow place "." = .ok place := follow_stay hfolder.2 (.inr rfl)
    rw [newPlace]
    simp only [Path.names_join directory hname.no_slash, List.dropLast_concat, hstart,
      List.foldlM_append, walk_folders hfolder, Outcome.ok_bind, List.foldlM_cons,
      List.foldlM_nil, hstay, List.getLastD_concat, if_neg hlast,
      if_neg (Nat.not_lt.mpr hname.fits), pure, Except.pure]
  have hfine : ¬(Path.join directory name ≠ Path.join directory name ∨
      t.entryAt? (place ++ [name]) = some .directory) :=
    not_or.mpr ⟨not_not.mpr rfl, hfree⟩
  rw [write, hpath]
  simp only [Outcome.ok_bind, withoutEndSlashes_join directory hname, hplace, if_neg hfine]
  rfl

/-- **A file that was written lies in its directory**, where no directory was before. -/
theorem exists_of_write_join {bytes : List UInt8} (hname : IsPlainName name)
    (hwrite : t.write (Path.join directory name) bytes = .ok s) :
    ∃ place, t.IsFolder directory place ∧ t.entryAt? (place ++ [name]) ≠ some .directory ∧
      s = t.set (place ++ [name]) (.file bytes) := by
  have hstart : t.start (Path.join directory name) = t.start directory := by
    rw [start, start, Path.isAbsolute_join directory hname.no_slash]
  obtain ⟨_, -, hwrite⟩ := Outcome.bind_eq_ok_iff.mp hwrite
  obtain ⟨new, hnew, hwrite⟩ := Outcome.bind_eq_ok_iff.mp hwrite
  rw [withoutEndSlashes_join directory hname, newPlace, Path.names_join directory hname.no_slash,
    List.dropLast_concat, List.getLastD_concat, hstart] at hnew
  obtain ⟨place, hwalk, hnew⟩ := Outcome.bind_eq_ok_iff.mp hnew
  rw [List.foldlM_append] at hwalk
  obtain ⟨reached, hfolders, hlast⟩ := Outcome.bind_eq_ok_iff.mp hwalk
  rw [List.foldlM_cons] at hlast
  obtain ⟨same, hstay, hsame⟩ := Outcome.bind_eq_ok_iff.mp hlast
  have hentry := isDirectory_of_follow hstay
  rw [follow_stay hentry (.inr rfl)] at hstay
  cases hstay
  cases hsame
  obtain ⟨-, hnew⟩ := Outcome.guard_eq_ok_iff.mp hnew
  obtain ⟨-, hnew⟩ := Outcome.guard_eq_ok_iff.mp hnew
  cases hnew
  obtain ⟨hfree, hwrite⟩ := Outcome.guard_eq_ok_iff.mp hwrite
  cases hwrite
  exact ⟨place, isFolder_of_walk_folders hfolders hentry, (not_or.mp hfree).2, rfl⟩

/-- A tree in which a file was put has grown, if no directory stood there. -/
theorem extends_set (hfree : t.entryAt? (place ++ [name]) ≠ some .directory) (bytes : List UInt8) :
    (t.set (place ++ [name]) (.file bytes)).Extends t := by
  have hentry : ∀ p, (t.set (place ++ [name]) (.file bytes)).entryAt? p =
      if p = place ++ [name] then some (.file bytes) else t.entryAt? p :=
    fun p => entryAt?_set t (place ++ [name]) p (.file bytes) (by simp)
  refine ⟨rfl, ?_, ?_⟩
  · intro p hp
    rw [hentry, if_neg]
    · exact hp
    · intro hsame
      subst hsame
      exact hfree hp
  · intro p hp
    rw [hentry]
    split
    · rfl
    · exact hp

end FileTree

end SeviriImagery
