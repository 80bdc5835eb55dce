import SeviriImagery.Product.Location
import SeviriImagery.Proofs.Product.Pattern
import SeviriImagery.Proofs.Wildcard.Letters

/-!
# The files that a product is made of

`FileTree.IsSearch` says what is relied on of a search for files, and the search here keeps to it
(`FileTree.isSearch`).

A product is put together from the files that match the patterns for its kinds of files
(`FileTree.found`).  They come in the order of paths, and in whatever order a tree has its entries
they are the same, and so is the product (`FileTree.Rearranges.locate_eq`).

The parts of a name may be anything, wildcards and slashes too, and then the files may be from
several directories.  With parts that pass `ProductName.check` they are from one.  Then they are what
is in the product's directory under a name that the pattern finds (`FileTree.mem_found_iff`), none of
them is found twice, and they are in the order of their texts (`FileTree.found_in_order_of_texts`).
-/

namespace SeviriImagery

open Wildcard

namespace FileTree

/-- What a search finds does not depend on the order of the entries. -/
theorem Rearranges.search_eq {t s : FileTree} (hsame : t.Rearranges s) (hwf : s.WellFormed) :
    t.search = s.search := by
  funext pattern
  rw [search, search, hsame.inOrder_eq hwf]

/-- What is relied on of a search for the paths that match a pattern. -/
structure IsSearch (search : FileTree → String → Except WildcardError (List String)) : Prop where
  /-- The order in which a tree has its entries does not matter. -/
  rearranged : ∀ {t s : FileTree}, t.Rearranges s → s.WellFormed → search t = search s
  /-- Whether a pattern can be searched does not depend on the letters in it. -/
  letters : ∀ (t : FileTree) {f : Char → Char} {p q : String}, KeepsMeaning f →
    p.toList.map f = q.toList.map f → (search t p).isOk = (search t q).isOk
  /-- In a directory the names that match are found, each behind the path on which the search arrives;
  they are in the order of paths.  Nothing is found in one through whose folders it does not come. -/
  folder : ∀ {t : FileTree} {place : Place} {directory name : String} {marks : List Mark},
    t.WellFormed → t.IsFolder directory place → '/' ∉ name.toList →
    checkPath (Path.join directory name) = .ok () → Mark.any ∈ marks → 2 < marks.length →
    '/' ∉ marks.flatMap Mark.text →
      search t (Path.join (escape directory) (String.ofList (marks.flatMap Mark.text))) =
        .ok (Path.sort (if Path.isSearchable directory then
          (t.inOrder.matching place marks).map (below (approach directory)) else []))
  /-- Whatever a directory is called, the names in one place that match are found, or nothing is. -/
  onePlace : ∀ {t : FileTree} (directory : String) {marks : List Mark},
    t.WellFormed → Mark.any ∈ marks → 2 < marks.length → '/' ∉ marks.flatMap Mark.text →
      ∃ paths, search t (Path.join (escape directory) (String.ofList (marks.flatMap Mark.text))) =
          .ok (Path.sort paths) ∧
        (paths = [] ∨ ∃ base place, paths = (t.inOrder.matching place marks).map (below base))

/-- **Files are searched in this way.** -/
theorem isSearch : IsSearch search where
  rearranged := Rearranges.search_eq
  letters := fun t _ _ _ hf hsame => isOk_search_of_map hf t hsame
  folder := fun hwf hfolder hname hpath => search_join hwf hfolder hname hpath
  onePlace := fun directory _ hwf => exists_search_escape hwf directory

/-- The paths of a product's files of one kind; none if the pattern for them cannot be read. -/
def found (t : FileTree) (name : ProductName) (kind : FileKind) : List String :=
  (t.productFiles name kind).toOption.getD []

variable {t s : FileTree} {name : ProductName} {kind : FileKind}

theorem found_of_productFiles {paths : List String} (hfiles : t.productFiles name kind = .ok paths) :
    t.found name kind = paths := by
  rw [found, hfiles]
  rfl

/-- The files are found in the order of paths. -/
theorem pairwise_found (t : FileTree) (name : ProductName) (kind : FileKind) :
    (t.found name kind).Pairwise fun a b => Path.le a b = true := by
  cases hfiles : t.productFiles name kind with
  | error e =>
      rw [found, hfiles]
      exact .nil
  | ok paths =>
      obtain ⟨listed, -, hsort⟩ := Outcome.map_eq_ok_iff.mp (Outcome.mapError_eq_ok_iff.mp hfiles)
      rw [found_of_productFiles hfiles, ← hsort]
      exact Path.pairwise_sort listed

/-- What is listed in the order of paths by a tree in order is what is found. -/
theorem found_of_enumerate {paths : List String}
    (hentries : t.entries.Pairwise fun a b => placeLe a.1 b.1 = true)
    (hlisted : (t.enumerate (name.pattern kind)).toOption = some paths)
    (hpaths : paths.Pairwise fun a b => Path.le a b = true) : t.found name kind = paths := by
  refine found_of_productFiles ?_
  cases henumerate : t.enumerate (name.pattern kind) with
  | error e =>
      rw [henumerate] at hlisted
      cases hlisted
  | ok listed =>
      rw [henumerate] at hlisted
      cases hlisted
      rw [productFiles, search, inOrder_of_pairwise hentries, henumerate, Outcome.ok_map, Path.sort,
        List.mergeSort_of_pairwise hpaths]
      rfl

end FileTree

namespace ProductName

/-- A character, or an `A` in the place of a capital letter. -/
def withoutCapitals (c : Char) : Char := if c.isUpper then 'A' else c

theorem keepsMeaning_withoutCapitals : KeepsMeaning withoutCapitals := by
  intro d hd c
  have hsmall : ∀ d ∈ ['?', '*', '[', ']', '!', '/'], d.isUpper = false := by simp [Char.isUpper]
  have hother : 'A' ∉ ['?', '*', '[', ']', '!', '/'] := by decide
  unfold withoutCapitals
  by_cases hc : c.isUpper
  · rw [if_pos hc]
    refine iff_of_false ?_ ?_
    · intro hsame
      exact hother (hsame ▸ hd)
    · intro hsame
      rw [hsame, hsmall d hd] at hc
      cases hc
  · rw [if_neg hc]

/-- The patterns for the epilogue and for the prologue differ in capital letters only. -/
theorem map_epiloguePattern (n : ProductName) :
    (n.pattern .epilogue).toList.map withoutCapitals =
      (n.pattern .prologue).toList.map withoutCapitals := by
  refine Path.map_join keepsMeaning_withoutCapitals _ ?_
  have hsequence : (sequencePattern .epilogue).toList.map withoutCapitals =
      (sequencePattern .prologue).toList.map withoutCapitals := by decide
  simp only [toList_filePattern, List.map_append, hsequence]
  rfl

/-- A product is looked for among the files in one place: its name is a proper one, the place is that
of its directory, the file system takes the paths of files in it, and a search comes through it. -/
structure IsSoughtIn (n : ProductName) (t : FileTree) (place : Place) : Prop where
  check : n.check = .ok ()
  folder : t.IsFolder n.directory place
  path : FileTree.checkPath (Path.join n.directory (n.segmentName 1)) = .ok ()
  searchable : Path.isSearchable n.directory

end ProductName

namespace FileTree

variable {t s : FileTree} {name : ProductName} {kind : FileKind}

theorem isOk_productFiles (t : FileTree) (name : ProductName) (kind : FileKind) :
    (t.productFiles name kind).isOk = (t.search (name.pattern kind)).isOk := by
  rw [productFiles]
  cases t.search (name.pattern kind) <;> rfl

/-- The epilogue can be looked for if the prologue can. -/
theorem isOk_productFiles_epilogue (t : FileTree) (name : ProductName) :
    (t.productFiles name .epilogue).isOk = (t.productFiles name .prologue).isOk := by
  rw [isOk_productFiles, isOk_productFiles]
  exact isSearch.letters t ProductName.keepsMeaning_withoutCapitals name.map_epiloguePattern

namespace Rearranges

theorem readHeader_eq (hsame : t.Rearranges s) (hwf : s.WellFormed) :
    t.readHeader = s.readHeader := by
  funext path
  rw [readHeader, readHeader, readBytes, readBytes, hsame.find_eq hwf]

/-- **A product is located in the same way**, with the same notes, in whatever order a tree has its
entries. -/
theorem locate_eq (hsame : t.Rearranges s) (hwf : s.WellFormed) (name : ProductName) :
    t.locate name = s.locate name := by
  have hfiles : t.productFiles name = s.productFiles name := by
    funext kind
    rw [productFiles, productFiles, isSearch.rearranged hsame hwf]
  have hcandidate : SegmentCandidate.ofFile t = SegmentCandidate.ofFile s := by
    funext path
    rw [SegmentCandidate.ofFile, SegmentCandidate.ofFile, hsame.readHeader_eq hwf]
  have hprologue : t.locatePrologue name = s.locatePrologue name := by
    rw [locatePrologue, locatePrologue, hfiles]
  have hepilogue : t.locateEpilogue name = s.locateEpilogue name := by
    rw [locateEpilogue, locateEpilogue, hfiles]
  have hcandidates : t.segmentCandidates name = s.segmentCandidates name := by
    rw [segmentCandidates, segmentCandidates, hfiles, hcandidate]
  rw [locate, locate, hprologue, hepilogue, hcandidates]

end Rearranges

/-- A tree as a file system can have it: no two entries have one place, and each is a step below
another. -/
structure IsProper (t : FileTree) : Prop where
  wellFormed : t.WellFormed
  plain : ∀ e ∈ t.entries, ∀ name ∈ e.1, IsPlainName name

instance (t : FileTree) : Decidable t.IsProper :=
  decidable_of_iff ((t.entries.map Prod.fst).Nodup ∧ ∀ e ∈ t.entries, ∀ name ∈ e.1, IsPlainName name)
    ⟨fun h => ⟨h.1, h.2⟩, fun h => ⟨h.wellFormed, h.plain⟩⟩

/-- Two texts with the same front are in the order of what stands behind it. -/
theorem append_le_append_iff {front a b : String} : front ++ a ≤ front ++ b ↔ a ≤ b := by
  rw [← not_lt, ← not_lt, not_iff_not, String.lt_iff_toList_lt, String.lt_iff_toList_lt,
    String.toList_append, String.toList_append]
  induction front.toList with
  | nil => rfl
  | cons c front ih => simpa using ih

/-- A name behind a path is the end of its text. -/
theorem exists_text_join (base : String) :
    ∃ text : String, ∀ name : String, '/' ∉ name.toList → Path.join base name = text ++ name := by
  by_cases hempty : base.isEmpty
  · refine ⟨"", fun name hname => ?_⟩
    rw [Path.join, Path.isAbsolute_of_not_mem hname, hempty]
    simp
  · by_cases hslash : base.toList.getLast? == some '/'
    · refine ⟨base, fun name hname => ?_⟩
      rw [Path.join, Path.isAbsolute_of_not_mem hname, Bool.false_or, if_neg hempty, if_pos hslash]
    · refine ⟨base ++ "/", fun name hname => ?_⟩
      rw [Path.join, Path.isAbsolute_of_not_mem hname, Bool.false_or, if_neg hempty, if_neg hslash]

/-- A name behind a path is the last of its steps. -/
theorem exists_steps_join (base : String) :
    ∃ steps, ∀ name, IsPlainName name → Path.steps (Path.join base name) = steps ++ [.down name] := by
  refine ⟨(if Path.isAbsolute base then [.start true]
    else if (Path.folders base).head? = some "." then [.start false] else []) ++
      (Path.folders base).filterMap fun name =>
        if name = "" ∨ name = "." then none else some (if name = ".." then .up else .down name),
    fun name hname => ?_⟩
  have hstay : ¬(name = "" ∨ name = ".") := not_or.mpr ⟨hname.not_empty, hname.not_here⟩
  have hhead : ((Path.folders base ++ [name]).head? == some ".") =
      decide ((Path.folders base).head? = some ".") := by
    cases Path.folders base with
    | nil => simpa using hname.not_here
    | cons first rest => simp [Bool.beq_eq_decide_eq]
  rw [Path.steps, Path.isAbsolute_join base hname.no_slash, Path.names_join base hname.no_slash,
    List.filterMap_append]
  simp only [hhead, List.filterMap_cons, List.filterMap_nil, if_neg hstay, if_neg hname.not_up]
  by_cases habsolute : Path.isAbsolute base
  · simp [habsolute]
  · by_cases hdot : (Path.folders base).head? = some "."
    · simp [habsolute, hdot]
    · simp [habsolute, hdot]

/-- A name below a path is the end of its text and the last of its steps. -/
theorem exists_below (base : String) : ∃ (text : String) (steps : List Path.Step),
    ∀ name, IsPlainName name →
      below base name = text ++ name ∧ Path.steps (below base name) = steps ++ [.down name] := by
  by_cases hhere : Path.isHere base
  · refine ⟨"", [], fun name hname => ?_⟩
    rw [below, if_pos hhere, Path.steps, Path.isAbsolute_of_not_mem hname.no_slash,
      Path.names_of_not_mem hname.no_slash]
    simp [hname.not_here, hname.not_up, hname.not_empty]
  · obtain ⟨text, htext⟩ := exists_text_join base
    obtain ⟨steps, hsteps⟩ := exists_steps_join base
    refine ⟨text, steps, fun name hname => ?_⟩
    rw [below, if_neg hhere]
    exact ⟨htext name hname.no_slash, hsteps name hname⟩

/-- **Files in one directory are in the order of their texts.** -/
theorem le_below_iff {base a b : String} (ha : IsPlainName a) (hb : IsPlainName b) :
    Path.le (below base a) (below base b) = true ↔ below base a ≤ below base b := by
  obtain ⟨text, steps, hbelow⟩ := exists_below base
  obtain ⟨htextA, hstepsA⟩ := hbelow a ha
  obtain ⟨htextB, hstepsB⟩ := hbelow b hb
  rw [Path.le, hstepsA, hstepsB, Path.stepsLe_append_left_iff, Path.stepsLe_down_iff, htextA, htextB,
    append_le_append_iff]

theorem below_inj {base a b : String} (ha : IsPlainName a) (hb : IsPlainName b)
    (hsame : below base a = below base b) : a = b := by
  obtain ⟨text, steps, hbelow⟩ := exists_below base
  rw [(hbelow a ha).1, (hbelow b hb).1] at hsame
  exact String.append_right_inj _ |>.mp hsame

/-- The names in a place of a proper tree that match a pattern are plain. -/
theorem isPlainName_of_mem_matching (hproper : t.IsProper) {place : Place} {marks : List Mark}
    {file : String} (hfile : file ∈ t.inOrder.matching place marks) : IsPlainName file := by
  have hwf := (rearranges_inOrder t).wellFormed hproper.wellFormed
  obtain ⟨⟨entry, hentry⟩, -⟩ := (mem_matching_iff hwf).mp hfile
  have hmem := mem_children_iff.mp ((mem_children_iff_entryAt? hwf).mpr hentry)
  exact hproper.plain _ ((rearranges_inOrder t).entries.mem_iff.mp hmem) file (by simp)

/-- The files of a product with a proper name are names in one place, below one path. -/
theorem exists_found (hwf : t.WellFormed) (hcheck : name.check = .ok ()) (kind : FileKind) :
    ∃ base place files, (files = [] ∨ files = t.inOrder.matching place (name.fileMarks kind)) ∧
      t.found name kind = Path.sort (files.map (below base)) := by
  obtain ⟨paths, hsearch, hpaths⟩ := isSearch.onePlace name.directory hwf
    (ProductName.any_mem_fileMarks name kind) (ProductName.two_lt_length_fileMarks name kind)
    (ProductName.slash_not_mem_fileMarks hcheck)
  have hfound : t.found name kind = Path.sort paths := by
    refine found_of_productFiles ?_
    rw [productFiles, ProductName.pattern, ProductName.filePattern_eq hcheck, hsearch]
    rfl
  rcases hpaths with rfl | ⟨base, place, rfl⟩
  · exact ⟨"", [], [], .inl rfl, hfound⟩
  · exact ⟨base, place, _, .inr rfl, hfound⟩

/-- The files of a product in a directory: those whose names match, if a search comes to them. -/
theorem productFiles_eq {place : Place} (hwf : t.WellFormed) (hcheck : name.check = .ok ())
    (hfolder : t.IsFolder name.directory place)
    (hpath : checkPath (Path.join name.directory (name.segmentName 1)) = .ok ()) (kind : FileKind) :
    t.productFiles name kind = .ok (Path.sort (if Path.isSearchable name.directory then
      (t.inOrder.matching place (name.fileMarks kind)).map (below (approach name.directory))
      else [])) := by
  have hslash := (ProductName.isPlainName_memberName hcheck (.segment 1)).no_slash
  rw [productFiles, ProductName.pattern, ProductName.filePattern_eq hcheck,
    isSearch.folder hwf hfolder hslash hpath (ProductName.any_mem_fileMarks name kind)
      (ProductName.two_lt_length_fileMarks name kind) (ProductName.slash_not_mem_fileMarks hcheck)]
  rfl

/-- **The files of a product are those in its directory that its patterns find.** -/
theorem mem_found_iff {place : Place} (hwf : t.WellFormed) (hsought : name.IsSoughtIn t place)
    {path : String} :
    path ∈ t.found name kind ↔ ∃ file, (t.entryAt? (place ++ [file])).isSome ∧
      name.Finds kind file ∧ path = below (approach name.directory) file := by
  have hsame := rearranges_inOrder t
  rw [found_of_productFiles (productFiles_eq hwf hsought.check hsought.folder hsought.path kind),
    if_pos hsought.searchable, Path.sort, List.mem_mergeSort, List.mem_map]
  simp only [mem_matching_iff (hsame.wellFormed hwf), hsame.entryAt?_eq hwf,
    ← ProductName.finds_iff hsought.check, ← Option.isSome_iff_exists, and_assoc,
    eq_comm (a := path)]

/-- **No file of a product with a proper name is found twice**, and the files are in the order of
their texts. -/
theorem found_in_order_of_texts (hproper : t.IsProper) (hcheck : name.check = .ok ())
    (kind : FileKind) :
    (t.found name kind).Nodup ∧ ∀ a ∈ t.found name kind, ∀ b ∈ t.found name kind,
      (Path.le a b = true ↔ a ≤ b) := by
  obtain ⟨base, place, files, hfiles, hfound⟩ := exists_found hproper.wellFormed hcheck kind
  have hwf := (rearranges_inOrder t).wellFormed hproper.wellFormed
  have hplain : ∀ file ∈ files, IsPlainName file := by
    intro file hfile
    rcases hfiles with rfl | rfl
    · cases hfile
    · exact isPlainName_of_mem_matching hproper hfile
  have hnodup : files.Nodup := by
    rcases hfiles with rfl | rfl
    · exact .nil
    · exact nodup_matching hwf place _
  have hmem : ∀ path ∈ t.found name kind, ∃ file ∈ files, below base file = path := by
    intro path hpath
    rw [hfound, Path.sort, List.mem_mergeSort] at hpath
    exact List.mem_map.mp hpath
  refine ⟨?_, ?_⟩
  · rw [hfound, Path.sort, (List.mergeSort_perm _ _).nodup_iff]
    exact hnodup.map_on fun a ha b hb hsame => below_inj (hplain a ha) (hplain b hb) hsame
  · intro a ha b hb
    obtain ⟨first, hfirst, rfl⟩ := hmem a ha
    obtain ⟨second, hsecond, rfl⟩ := hmem b hb
    exact le_below_iff (hplain first hfirst) (hplain second hsecond)

end FileTree

end SeviriImagery
