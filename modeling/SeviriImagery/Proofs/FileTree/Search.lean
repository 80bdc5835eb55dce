import SeviriImagery.Proofs.FileTree.Order
import SeviriImagery.Proofs.Wildcard

/-!
# Searching a directory

A search for files in a directory goes through the folders of the directory one by one.  It puts
the path on which it goes together anew: below the working directory it drops the dot, and a
folder that had to be escaped is found among the others in its directory.  `FileTree.approach` is
the path on which it arrives, and what it finds are the names in the directory that match, behind
this path (`FileTree.search_join`).

There is one way for it to go astray.  Where an empty name follows while the path is still that of
the working directory, as in `.//data`, dropping the dot leaves no path at all.  Such a directory
can be written to, but nothing is found in it (`Path.isSearchable`).
-/

namespace SeviriImagery

open Wildcard

/-- Whether a search comes through the folders of a directory: it does, unless an empty name follows
dots at its front. -/
def Path.isSearchable (directory : String) : Bool :=
  isAbsolute directory || ((folders directory).dropWhile (· == ".")).head? != some ""

namespace Wildcard

/-- The characters of an escaped text. -/
def escaped (text : List Char) : List Char := (text.map Mark.exactly).flatMap Mark.text

theorem escaped_cons (c : Char) (text : List Char) :
    escaped (c :: text) = (Mark.exactly c).text ++ escaped text := rfl

theorem escaped_slash : (Mark.exactly '/').text = ['/'] := rfl

/-- A character is not escaped with a slash. -/
theorem slash_not_mem_text {c : Char} (hc : c ≠ '/') : '/' ∉ (Mark.exactly c).text := by
  rw [Mark.text]
  split
  · simp [Ne.symm hc]
  · simp [Ne.symm hc]

/-- The fields of an escaped text are those of the text, escaped. -/
theorem fields_escaped (text : List Char) :
    Text.fields '/' (escaped text) = (Text.fields '/' text).map escaped := by
  induction text with
  | nil => rfl
  | cons c text ih =>
      rw [escaped_cons, Text.fields]
      by_cases hc : c = '/'
      · rw [if_pos hc, hc, escaped_slash, List.singleton_append, Text.fields, if_pos rfl, ih]
        rfl
      · obtain ⟨first, others, hsplit⟩ := List.exists_cons_of_ne_nil (Text.fields_ne_nil '/' text)
        have hfront : ∀ front rest : List Char, '/' ∉ front →
            Text.fields '/' rest = escaped first :: others.map escaped →
              Text.fields '/' (front ++ rest) = (front ++ escaped first) :: others.map escaped := by
          intro front rest hfront hrest
          induction front with
          | nil => exact hrest
          | cons d front hstep =>
              simp only [List.mem_cons, not_or] at hfront
              rw [List.cons_append, Text.fields, if_neg (Ne.symm hfront.1), hstep hfront.2]
              rfl
        rw [if_neg hc, hsplit, hfront _ _ (slash_not_mem_text hc) (by rw [ih, hsplit]; rfl)]
        rfl

/-- A slash in front of an escaped text is one in front of the text. -/
theorem head?_escaped (text : List Char) :
    ((escaped text).head? == some '/') = (text.head? == some '/') := by
  cases text with
  | nil => rfl
  | cons c text =>
      rw [escaped_cons, Mark.text]
      split
      · rename_i hspecial
        have hc : c ≠ '/' := by
          intro hsame
          subst hsame
          revert hspecial
          decide
        simp [hc]
      · rfl

/-- So it is at the end. -/
theorem getLast?_escaped (text : List Char) :
    ((escaped text).getLast? == some '/') = (text.getLast? == some '/') := by
  rcases List.eq_nil_or_concat text with rfl | ⟨front, c, rfl⟩
  · rfl
  · have hsplit : escaped (front.concat c) = escaped front ++ (Mark.exactly c).text := by
      simp [escaped]
    rw [hsplit, Mark.text]
    split
    · rename_i hspecial
      have hc : c ≠ '/' := by
        intro hsame
        subst hsame
        revert hspecial
        decide
      simp [hc]
    · simp

/-- Escaping a path does not make it absolute, nor does it keep it from being so. -/
theorem isAbsolute_escape (text : String) : Path.isAbsolute (escape text) = Path.isAbsolute text := by
  rw [Path.isAbsolute, Path.isAbsolute, isWildcards.escaped]
  exact head?_escaped text.toList

/-- The names on an escaped path are the escaped names. -/
theorem names_escape (path : String) :
    Path.names (escape path) = (Path.names path).map escape := by
  have htext : Path.relativeText (escape path) = escaped (Path.relativeText path) := by
    have hchars : (escape path).toList = escaped path.toList := isWildcards.escaped path
    rw [Path.relativeText, Path.relativeText, isAbsolute_escape, hchars]
    by_cases habsolute : Path.isAbsolute path
    · rw [if_pos habsolute, if_pos habsolute]
      unfold Path.isAbsolute at habsolute
      cases htoList : path.toList with
      | nil => rfl
      | cons c rest =>
          rw [htoList] at habsolute
          have hc : c = '/' := by simpa using habsolute
          rw [hc]
          rfl
    · rw [if_neg habsolute, if_neg habsolute]
  rw [Path.names_eq, Path.names_eq, htext, fields_escaped, List.map_map, List.map_map]
  apply List.map_congr_left
  intro field _
  rw [Function.comp_apply, Function.comp_apply, ← String.toList_inj, isWildcards.escaped,
    String.toList_ofList, String.toList_ofList]
  rfl

/-- So are the folders of an escaped directory. -/
theorem folders_escape (directory : String) :
    Path.folders (escape directory) = (Path.folders directory).map escape := by
  have hlast := getLast?_escaped directory.toList
  have hchars : (escape directory).toList = escaped directory.toList := isWildcards.escaped directory
  have hempty : (escape directory).isEmpty = directory.isEmpty := by
    rw [Bool.eq_iff_iff, String.isEmpty_iff, String.isEmpty_iff, ← String.toList_eq_nil_iff,
      ← String.toList_eq_nil_iff, hchars]
    cases directory.toList with
    | nil => rfl
    | cons c rest =>
        have htext := (Mark.exactly c).length_text_pos
        rw [escaped_cons, List.append_eq_nil_iff, ← List.length_eq_zero_iff]
        simp only [reduceCtorEq, iff_false, not_and]
        omega
  rw [Path.folders, Path.folders, hempty, names_escape, hchars, hlast, ← List.map_dropLast]
  split
  · rfl
  · split <;> rfl

/-- Marks are no pattern for directories of any depth. -/
theorem tokens_ne_anyDepth (marks : List Mark) : marks.map Mark.token ≠ [.anyDepth] := by
  cases marks with
  | nil => simp
  | cons m rest =>
      cases m with
      | any => simp [Mark.token]
      | exactly c =>
          rw [List.map_cons, Mark.token]
          split <;> simp

/-- A pattern in which any character may stand somewhere is not looked up. -/
theorem literalText?_of_any {marks : List Mark} (hany : Mark.any ∈ marks) :
    literalText? (marks.map Mark.token) = none := by
  induction marks with
  | nil => cases hany
  | cons m rest ih =>
      rcases List.mem_cons.mp hany with rfl | hrest
      · rfl
      · cases m with
        | any => rfl
        | exactly c =>
            rw [List.map_cons, Mark.token]
            split
            · rfl
            · rw [literalText?, ih hrest]
              rfl

/-- A pattern in an escaped directory is a pattern of marks as a whole. -/
theorem exists_marks_join (directory : String) (marks : List Mark) :
    ∃ whole : List Mark, Path.join (escape directory) (String.ofList (marks.flatMap Mark.text)) =
      String.ofList (whole.flatMap Mark.text) := by
  have hescape : escape directory =
      String.ofList ((directory.toList.map Mark.exactly).flatMap Mark.text) := by
    rw [← isWildcards.escaped, String.ofList_toList]
  have hslash : "/" = String.ofList ([Mark.exactly '/'].flatMap Mark.text) := rfl
  rw [Path.join, hescape]
  split
  · exact ⟨marks, rfl⟩
  · split
    · refine ⟨directory.toList.map Mark.exactly ++ marks, ?_⟩
      rw [List.flatMap_append, String.ofList_append]
    · refine ⟨directory.toList.map Mark.exactly ++ [Mark.exactly '/'] ++ marks, ?_⟩
      rw [List.flatMap_append, List.flatMap_append, String.ofList_append, String.ofList_append,
        ← hslash]

end Wildcard

namespace FileTree

variable {t : FileTree} {place next : Place} {path name directory : String}

/-- The path on which a search arrives at a directory. -/
def approach (directory : String) : String :=
  (Path.folders directory).foldl below (if Path.isAbsolute directory then "/" else ".")

/-- The bytes that the path of a name in a directory has before the name. -/
def reach (path : String) : Nat :=
  if Path.isHere path || path.isEmpty then 0
  else if path.toList.getLast? == some '/' then path.utf8ByteSize
  else path.utf8ByteSize + 1

/-- A path to a name ends with the bytes of the name. -/
theorem utf8ByteSize_below (hname : '/' ∉ name.toList) :
    (below path name).utf8ByteSize = reach path + name.utf8ByteSize := by
  unfold below reach
  by_cases hhere : Path.isHere path
  · simp [hhere]
  · by_cases hempty : path.isEmpty
    · simp [hhere, hempty, Path.join]
    · simp only [hhere, hempty, Path.join, Path.isAbsolute_of_not_mem hname]
      by_cases hslash : path.toList.getLast? == some '/'
      · simp [hslash, String.utf8ByteSize_append]
      · have hone : "/".utf8ByteSize = 1 := by decide
        simp [hslash, String.utf8ByteSize_append, hone]

/-- Before a name there is at most a slash more than the path. -/
theorem reach_le (path : String) : reach path ≤ path.utf8ByteSize + 1 := by
  unfold reach
  split
  · exact Nat.zero_le _
  · split
    · exact Nat.le_succ _
    · exact Nat.le_refl _

/-- A path to a name has no characters but theirs and a slash. -/
theorem mem_of_mem_below {c : Char} (hc : c ∈ (below path name).toList) :
    c ∈ path.toList ∨ c = '/' ∨ c ∈ name.toList := by
  unfold below at hc
  split at hc
  · exact .inr (.inr hc)
  · exact Path.mem_of_mem_join hc

/-- Empty names and dots lead nowhere else. -/
theorem walk_stay {names : List String} (hstay : ∀ name ∈ names, name = "" ∨ name = ".")
    (hwalk : names.foldlM t.follow place = .ok next) : next = place := by
  induction names generalizing place with
  | nil =>
      cases hwalk
      rfl
  | cons name names ih =>
      rw [List.foldlM_cons] at hwalk
      obtain ⟨middle, hfirst, hrest⟩ := Outcome.bind_eq_ok_iff.mp hwalk
      rw [follow_stay (isDirectory_of_follow hfirst) (hstay name List.mem_cons_self)] at hfirst
      cases hfirst
      exact ih (fun n hn => hstay n (List.mem_cons_of_mem name hn)) hrest

/-- A path of the working directory leads to it. -/
theorem eq_of_isHere (hhere : Path.isHere path) (hresolve : t.resolve path = .ok place) :
    place = t.workingDirectory := by
  obtain ⟨habsolute, -, hstay⟩ := Path.isHere_iff.mp hhere
  obtain ⟨-, -, hwalk⟩ := Outcome.bind_eq_ok_iff.mp hresolve
  rw [start, habsolute] at hwalk
  exact walk_stay hstay hwalk

/-- Only a path that can be one leads anywhere. -/
theorem checkPath_of_resolve (hresolve : t.resolve path = .ok place) : checkPath path = .ok () := by
  obtain ⟨_, hcheck, -⟩ := Outcome.bind_eq_ok_iff.mp hresolve
  exact hcheck

/-- What is a path: it has a character, none of them NUL, and is not too long. -/
theorem checkPath_eq_ok_iff :
    checkPath path = .ok () ↔
      Char.ofNat 0 ∉ path.toList ∧ path ≠ "" ∧ path.utf8ByteSize ≤ pathLimit := by
  unfold checkPath
  by_cases hnul : Char.ofNat 0 ∈ path.toList
  · simp [hnul]
  · by_cases hempty : path = ""
    · simp [hempty]
    · by_cases hlong : pathLimit < path.utf8ByteSize
      · simp [hnul, hempty, hlong]
      · simp [hnul, hempty, hlong, Nat.not_lt.mp hlong]

/-- **A name below a path of a directory is looked for in it**, unless nothing is left of the
path. -/
theorem resolve_below (hresolve : t.resolve path = .ok place)
    (hentry : t.entryAt? place = some .directory) (hslash : '/' ∉ name.toList)
    (hnul : Char.ofNat 0 ∉ name.toList) (hsize : reach path + name.utf8ByteSize ≤ pathLimit)
    (hway : Path.isHere path → name ≠ "") :
    t.resolve (below path name) = t.follow place name := by
  obtain ⟨hclean, hpath, -⟩ := checkPath_eq_ok_iff.mp (checkPath_of_resolve hresolve)
  have hcheck : checkPath (below path name) = .ok () := by
    rw [checkPath_eq_ok_iff]
    refine ⟨?_, ?_, ?_⟩
    · intro hmem
      rcases mem_of_mem_below hmem with hmem | hmem | hmem
      · exact hclean hmem
      · exact absurd hmem (by decide)
      · exact hnul hmem
    · unfold below
      by_cases hhere : Path.isHere path
      · rw [if_pos hhere]
        exact hway hhere
      · rw [if_neg hhere]
        exact Path.join_ne_empty hpath hslash
    · rwa [utf8ByteSize_below hslash]
  unfold below at hcheck ⊢
  by_cases hhere : Path.isHere path
  · rw [if_pos hhere] at hcheck ⊢
    have hstart : t.start name = place := by
      rw [start, Path.isAbsolute_of_not_mem hslash, eq_of_isHere hhere hresolve]
      rfl
    rw [resolve, hcheck, Outcome.ok_bind, Path.names_of_not_mem hslash, hstart, List.foldlM_cons]
    exact bind_pure _
  · rw [if_neg hhere] at hcheck ⊢
    obtain ⟨_, -, hwalk⟩ := Outcome.bind_eq_ok_iff.mp hresolve
    exact resolve_join ⟨hwalk, hentry⟩ hslash hcheck

/-- The marks of a name that is looked for as it is. -/
def exactTokens (name : String) : List Token := (name.toList.map Mark.exactly).map Mark.token

/-- Of the things in a directory one has a name that something in it has. -/
theorem filter_children (hwf : t.WellFormed) {entry : Entry}
    (hentry : t.entryAt? (place ++ [name]) = some entry) :
    (t.children place).filter (fun c => c.1 = name) = [(name, entry)] := by
  have hnodup := nodup_children hwf place
  have hmem := (mem_children_iff_entryAt? hwf).mpr hentry
  generalize t.children place = children at hnodup hmem
  induction children with
  | nil => cases hmem
  | cons first rest ih =>
      obtain ⟨n, e⟩ := first
      rw [List.map_cons, List.nodup_cons] at hnodup
      rcases List.mem_cons.mp hmem with hfirst | hrest
      · cases hfirst
        have hothers : rest.filter (fun c => c.1 = name) = [] := by
          rw [List.filter_eq_nil_iff]
          intro c hc hname
          exact hnodup.1 (List.mem_map.mpr ⟨c, hc, by simpa using hname⟩)
        rw [List.filter_cons_of_pos (by simp), hothers]
      · have hother : n ≠ name := by
          intro hsame
          subst hsame
          exact hnodup.1 (List.mem_map.mpr ⟨_, hrest, rfl⟩)
        rw [List.filter_cons_of_neg (by simpa using hother)]
        exact ih hnodup.2 hrest

/-- A pattern of names that is no pattern of depths is compared with the names in one directory. -/
theorem searchFrom_cons {pattern : List Token} (hpattern : pattern ≠ [.anyDepth])
    (rest : NamePatterns) (path : String) :
    t.searchFrom (pattern :: rest) path =
      (match literalText? pattern with
        | some name => t.literalMatches path (String.ofList name)
        | none => if t.isDirectory path then t.nameMatches path pattern else []).flatMap
        (t.searchFrom rest) := by
  have hlast : pattern = [.anyDepth] → rest = [] → False := fun hdepth _ => hpattern hdepth
  have hdeep : ∀ next more, pattern = [.anyDepth] → rest = next :: more → False :=
    fun _ _ hdepth _ => hpattern hdepth
  refine (searchFrom.eq_4 t path pattern rest hlast hdeep).trans ?_
  cases literalText? pattern <;> rfl

/-- A path that leads to a directory is that of a directory. -/
theorem isDirectory_of_resolve (hresolve : t.resolve path = .ok place)
    (hentry : t.entryAt? place = some .directory) : t.isDirectory path = true := by
  simp [isDirectory, find, hresolve, hentry]

/-- An escaped name is found in a directory if it is there. -/
theorem nameMatches_exactTokens (hwf : t.WellFormed) (hresolve : t.resolve path = .ok place)
    (hspecial : name.toList.any isSpecial) :
    t.nameMatches path (exactTokens name) =
      if (t.entryAt? (place ++ [name])).isSome then [below path name] else [] := by
  have hnodots : ["..", "."].filter (fun d => isMatch (exactTokens name) d.toList) = [] := by
    rw [List.filter_eq_nil_iff]
    intro d hd hmatch
    have hsame : d = name := String.toList_inj.mp (isMatch_exactly_iff.mp hmatch)
    subst hsame
    simp only [List.mem_cons, List.not_mem_nil, or_false] at hd
    rcases hd with rfl | rfl <;> revert hspecial <;> decide
  have hmatches : (t.children place).filter (fun c => isMatch (exactTokens name) c.1.toList) =
      (t.children place).filter fun c => c.1 = name := by
    apply List.filter_congr
    intro c _
    rw [Bool.eq_iff_iff, exactTokens, isMatch_exactly_iff, String.toList_inj, decide_eq_true_iff]
  simp only [nameMatches, hresolve, hmatches, hnodots, ite_self, List.map_nil, List.nil_append]
  cases hentry : t.entryAt? (place ++ [name]) with
  | some entry =>
      rw [filter_children hwf hentry]
      rfl
  | none =>
      have hnone : (t.children place).filter (fun c => c.1 = name) = [] := by
        rw [List.filter_eq_nil_iff]
        intro c hc hname
        have hthere : t.entryAt? (place ++ [c.1]) = some c.2 := (mem_children_iff_entryAt? hwf).mp hc
        rw [of_decide_eq_true hname, hentry] at hthere
        cases hthere
      rw [hnone]
      rfl

/-- One folder on the way of a search: the search goes on below it, or it has gone astray. -/
theorem searchFrom_folder (hwf : t.WellFormed) (hresolve : t.resolve path = .ok place)
    (hfollow : t.follow place name = .ok next) (hslash : '/' ∉ name.toList)
    (hnul : Char.ofNat 0 ∉ name.toList) (hsize : reach path + name.utf8ByteSize ≤ pathLimit)
    (rest : NamePatterns) :
    t.searchFrom (exactTokens name :: rest) path =
      if Path.isHere path ∧ name = "" then [] else t.searchFrom rest (below path name) := by
  have hentry := isDirectory_of_follow hfollow
  have hdirectory := isDirectory_of_resolve hresolve hentry
  have hdepth : exactTokens name ≠ [.anyDepth] := tokens_ne_anyDepth _
  rw [searchFrom_cons hdepth]
  by_cases hspecial : name.toList.any isSpecial
  · have hplain : ¬(name = "" ∨ name = ".") ∧ name ≠ ".." := by
      refine ⟨?_, ?_⟩
      · intro hstay
        rcases hstay with rfl | rfl <;> revert hspecial <;> decide
      · intro hsame
        subst hsame
        revert hspecial
        decide
    have hempty : name ≠ "" := fun h => hplain.1 (.inl h)
    have hthere : (t.entryAt? (place ++ [name])).isSome := by
      simp only [follow, hentry, if_neg hplain.1, if_neg hplain.2] at hfollow
      split at hfollow
      · cases hfollow
      · split at hfollow
        · assumption
        · cases hfollow
    rw [nameMatches_exactTokens hwf hresolve hspecial, if_pos hthere, exactTokens,
      literalText?_marks, if_pos hspecial]
    simp only [hdirectory, if_true, if_neg (fun h : _ ∧ name = "" => hempty h.2)]
    simp
  · rw [exactTokens, literalText?_marks, if_neg hspecial]
    simp only [String.ofList_toList, literalMatches, hdirectory, if_true]
    by_cases hdots : name = "." ∨ name = ".."
    · have hempty : name ≠ "" := by
        intro hsame
        subst hsame
        revert hdots
        decide
      rw [if_pos hdots, if_neg (fun h => hempty h.2)]
      simp
    · rw [if_neg hdots]
      by_cases hlost : Path.isHere path ∧ name = ""
      · have hnothing : t.holds (below path name) = false := by
          rw [below, if_pos hlost.1, hlost.2]
          rfl
        rw [if_pos hlost, hnothing]
        rfl
      · have hway : Path.isHere path → name ≠ "" := fun hhere hempty => hlost ⟨hhere, hempty⟩
        have hholds : t.holds (below path name) = true := by
          rw [holds, resolve_below hresolve hentry hslash hnul hsize hway, hfollow]
          rfl
        rw [if_neg hlost, hholds, if_pos rfl]
        simp

/-- Whether a search that goes on from a path by some names comes to an empty name while the path is
still that of the working directory. -/
def goesAstray : (path : String) → List String → Bool
  | _, [] => false
  | path, name :: rest => (Path.isHere path && name == "") || goesAstray (below path name) rest

/-- Whoever comes to a directory has set out from one. -/
theorem isDirectory_of_walk {names : List String} (hwalk : names.foldlM t.follow place = .ok next)
    (hend : t.entryAt? next = some .directory) : t.entryAt? place = some .directory := by
  cases names with
  | nil =>
      cases hwalk
      exact hend
  | cons name names =>
      rw [List.foldlM_cons] at hwalk
      obtain ⟨middle, hfirst, -⟩ := Outcome.bind_eq_ok_iff.mp hwalk
      exact isDirectory_of_follow hfirst

/-- **The way of a search.**  It arrives where the names lead, or it goes astray. -/
theorem searchFrom_names (hwf : t.WellFormed) {names : List String} {room : Nat}
    (hresolve : t.resolve path = .ok place) (hwalk : names.foldlM t.follow place = .ok next)
    (hend : t.entryAt? next = some .directory) (hslash : ∀ name ∈ names, '/' ∉ name.toList)
    (hnul : ∀ name ∈ names, Char.ofNat 0 ∉ name.toList)
    (hroom : reach path + Path.namesSize names + room ≤ pathLimit + 1) (rest : NamePatterns) :
    (t.searchFrom (names.map exactTokens ++ rest) path =
      if goesAstray path names then [] else t.searchFrom rest (names.foldl below path)) ∧
    (goesAstray path names = false → t.resolve (names.foldl below path) = .ok next ∧
      reach (names.foldl below path) + room ≤ pathLimit + 1) := by
  induction names generalizing path place with
  | nil =>
      cases hwalk
      exact ⟨rfl, fun _ => ⟨hresolve, by simpa [Path.namesSize] using hroom⟩⟩
  | cons name names ih =>
      have hentry := isDirectory_of_walk hwalk hend
      rw [List.foldlM_cons] at hwalk
      obtain ⟨middle, hfirst, hrest⟩ := Outcome.bind_eq_ok_iff.mp hwalk
      have hsize : Path.namesSize (name :: names) =
          name.utf8ByteSize + 1 + Path.namesSize names := by
        simp [Path.namesSize]
      have hfits : reach path + name.utf8ByteSize ≤ pathLimit := by omega
      rw [List.map_cons, List.cons_append, goesAstray, searchFrom_folder hwf hresolve hfirst
        (hslash name List.mem_cons_self) (hnul name List.mem_cons_self) hfits]
      by_cases hlost : Path.isHere path ∧ name = ""
      · simp [hlost]
      · have hway : Path.isHere path → name ≠ "" := fun hhere hempty => hlost ⟨hhere, hempty⟩
        have hbelow := resolve_below hresolve hentry (hslash name List.mem_cons_self)
          (hnul name List.mem_cons_self) hfits hway
        rw [hfirst] at hbelow
        have hnext : reach (below path name) + Path.namesSize names + room ≤ pathLimit + 1 := by
          have hle := reach_le (below path name)
          rw [utf8ByteSize_below (hslash name List.mem_cons_self)] at hle
          omega
        have hbool : (Path.isHere path && name == "") = false := by
          rw [Bool.eq_false_iff]
          simpa using hlost
        rw [if_neg hlost, hbool, Bool.false_or, List.foldl_cons]
        exact ih hbelow hrest (fun n hn => hslash n (List.mem_cons_of_mem name hn))
          (fun n hn => hnul n (List.mem_cons_of_mem name hn)) hnext

/-- A path that is not that of the working directory does not become it by another name. -/
theorem isHere_below (hhere : Path.isHere path = false) (hpath : path ≠ "")
    (hslash : '/' ∉ name.toList) : Path.isHere (below path name) = false := by
  rw [below, hhere, if_neg (by simp), Bool.eq_false_iff]
  intro hjoin
  obtain ⟨habsolute, hhead, hstay⟩ := Path.isHere_iff.mp hjoin
  rw [Path.isAbsolute_join path hslash] at habsolute
  rw [Path.names_join path hslash] at hhead hstay
  have hnames : Path.names path ≠ [] ∧ Path.names path ≠ [""] := by
    have hsize := Path.namesSize_names path
    have hpositive : path.utf8ByteSize ≠ 0 := by simpa using hpath
    rw [habsolute, if_neg (by simp), Nat.add_zero] at hsize
    refine ⟨?_, ?_⟩
    · intro hnil
      have hzero : Path.namesSize [] = 0 := rfl
      rw [hnil, hzero] at hsize
      omega
    · intro hempty
      have hone : Path.namesSize [""] = 1 := by decide
      rw [hempty, hone] at hsize
      omega
  have hfolders : Path.folders path ≠ [] := by
    intro hnil
    rcases Path.names_eq_folders path with hsame | hsame
    · exact hnames.1 (hsame.trans hnil)
    · rw [hnil] at hsame
      exact hnames.2 hsame
  obtain ⟨first, others, hsplit⟩ := List.exists_cons_of_ne_nil hfolders
  have hnot : Path.isHere path = true := by
    rw [Path.isHere_iff]
    rw [hsplit] at hhead hstay
    refine ⟨habsolute, ?_, ?_⟩
    · rcases Path.names_eq_folders path with hsame | hsame <;> rw [hsame, hsplit] <;>
        simpa using hhead
    · intro n hn
      rcases Path.names_eq_folders path with hsame | hsame
      · rw [hsame, hsplit] at hn
        exact hstay n (List.mem_append_left _ hn)
      · rw [hsame, hsplit, List.mem_append] at hn
        rcases hn with hn | hn
        · exact hstay n (List.mem_append_left _ hn)
        · exact .inl (by simpa using hn)
  rw [hhere] at hnot
  cases hnot

/-- A search that has left the working directory does not go astray. -/
theorem goesAstray_of_not_isHere (hhere : Path.isHere path = false) (hpath : path ≠ "")
    {names : List String} (hslash : ∀ name ∈ names, '/' ∉ name.toList) :
    goesAstray path names = false := by
  induction names generalizing path with
  | nil => rfl
  | cons name names ih =>
      have hname := hslash name List.mem_cons_self
      have hnext : below path name ≠ "" := by
        rw [below, hhere, if_neg (by simp)]
        exact Path.join_ne_empty hpath hname
      rw [goesAstray, hhere, Bool.false_and, Bool.false_or]
      exact ih (isHere_below hhere hpath hname) hnext
        fun n hn => hslash n (List.mem_cons_of_mem name hn)

/-- A search that starts in the working directory goes astray if an empty name follows dots. -/
theorem goesAstray_dot {names : List String} (hslash : ∀ name ∈ names, '/' ∉ name.toList) :
    goesAstray "." names = ((names.dropWhile (· == ".")).head? == some "") := by
  induction names with
  | nil => rfl
  | cons name names ih =>
      have hrest := ih fun n hn => hslash n (List.mem_cons_of_mem name hn)
      have hdot : Path.isHere "." = true := by decide
      have hbelow : below "." name = name := by rw [below, if_pos hdot]
      rw [goesAstray, hbelow, hdot, Bool.true_and]
      by_cases hsame : name = "."
      · subst hsame
        rw [hrest, List.dropWhile_cons_of_pos (by decide)]
        simp
      · rw [List.dropWhile_cons_of_neg (by simpa using hsame)]
        by_cases hempty : name = ""
        · simp [hempty]
        · have hhere : Path.isHere name = false := by
            rw [Bool.eq_false_iff, Ne, Path.isHere_iff,
              Path.names_of_not_mem (hslash name List.mem_cons_self)]
            simp [hempty, hsame]
          rw [goesAstray_of_not_isHere hhere hempty fun n hn => hslash n (List.mem_cons_of_mem name hn)]
          simp

/-- No folder of a directory has a slash in it. -/
theorem not_mem_of_mem_folders (hname : name ∈ Path.folders directory) : '/' ∉ name.toList :=
  Path.not_mem_of_mem_names (Path.mem_names_of_mem_folders hname)

/-- A directory is searchable if a search for it does not go astray. -/
theorem goesAstray_folders (directory : String) :
    goesAstray (if Path.isAbsolute directory then "/" else ".") (Path.folders directory) =
      !Path.isSearchable directory := by
  have hslash : ∀ name ∈ Path.folders directory, '/' ∉ name.toList :=
    fun _ hname => not_mem_of_mem_folders hname
  unfold Path.isSearchable
  by_cases habsolute : Path.isAbsolute directory
  · have hroot : Path.isHere "/" = false := by decide
    rw [if_pos habsolute, goesAstray_of_not_isHere hroot (by decide) hslash, habsolute]
    rfl
  · rw [if_neg habsolute, goesAstray_dot hslash]
    simp [habsolute, bne]

/-- Patterns of which none stands for directories of any depth are searched one by one. -/
theorem joinDepths_eq {patterns : NamePatterns} (hdepth : ∀ p ∈ patterns, p ≠ [.anyDepth]) :
    joinDepths patterns = patterns := by
  induction patterns with
  | nil => rfl
  | cons pattern rest ih =>
      have hrest := ih fun p hp => hdepth p (List.mem_cons_of_mem pattern hp)
      rw [joinDepths, hrest]
      intro hsame
      subst hsame
      exact hdepth _ List.mem_cons_self rfl

/-- The names in a directory that match a pattern. -/
def matching (t : FileTree) (place : Place) (marks : List Mark) : List String :=
  ((t.children place).map Prod.fst).filter fun n => isMatch (marks.map Mark.token) n.toList

/-- The names that match are those of the things in the directory that match. -/
theorem mem_matching_iff (hwf : t.WellFormed) {marks : List Mark} :
    name ∈ t.matching place marks ↔ (∃ entry, t.entryAt? (place ++ [name]) = some entry) ∧
      List.Forall₂ Mark.Allows marks name.toList := by
  rw [matching, List.mem_filter, List.mem_map, isWildcards.accepts_iff]
  refine and_congr_left fun _ => ?_
  constructor
  · intro hgiven
    obtain ⟨⟨n, entry⟩, hmem, rfl⟩ := hgiven
    exact ⟨entry, (mem_children_iff_entryAt? hwf).mp hmem⟩
  · intro hgiven
    obtain ⟨entry, hentry⟩ := hgiven
    exact ⟨(name, entry), (mem_children_iff_entryAt? hwf).mpr hentry, rfl⟩

/-- No name matches twice. -/
theorem nodup_matching (hwf : t.WellFormed) (place : Place) (marks : List Mark) :
    (t.matching place marks).Nodup :=
  (nodup_children hwf place).filter _

/-- The last name of a pattern is compared with the names in the directory. -/
theorem searchFrom_last (hresolve : t.resolve path = .ok place)
    (hdirectory : t.isDirectory path = true) {marks : List Mark} (hany : Mark.any ∈ marks)
    (hlength : 2 < marks.length) :
    t.searchFrom [marks.map Mark.token] path = (t.matching place marks).map (below path) := by
  have hnodots : ["..", "."].filter (fun d => isMatch (marks.map Mark.token) d.toList) = [] := by
    rw [List.filter_eq_nil_iff]
    intro d hd hmatch
    have hsame := (isWildcards.accepts_iff.mp hmatch).length_eq
    simp only [List.mem_cons, List.not_mem_nil, or_false] at hd
    have hdots : d.toList.length ≤ 2 := by
      rcases hd with rfl | rfl <;> decide
    omega
  have hnames : t.nameMatches path (marks.map Mark.token) =
      (t.matching place marks).map (below path) := by
    simp only [nameMatches, hresolve, hnodots, ite_self, List.map_nil, List.nil_append, matching,
      List.filter_map, List.map_map]
    rfl
  rw [searchFrom_cons (tokens_ne_anyDepth marks), literalText?_of_any hany]
  simp only [hdirectory, if_true, hnames, searchFrom]
  exact List.flatMap_singleton' _

/-- A search begins at the root or in the working directory. -/
theorem resolve_origin (hfolder : t.IsFolder directory place) :
    t.resolve (if Path.isAbsolute directory then "/" else ".") = .ok (t.start directory) := by
  have hstart := isDirectory_of_walk hfolder.1 hfolder.2
  by_cases habsolute : Path.isAbsolute directory
  · rw [start, if_pos habsolute, if_pos habsolute]
    rfl
  · rw [start, if_neg habsolute] at hstart
    have hnames : Path.names "." = ["."] := by decide
    have horigin : t.start "." = t.workingDirectory := rfl
    have hcheck : checkPath "." = .ok () := by rfl
    rw [if_neg habsolute, start, if_neg habsolute, resolve, hcheck, Outcome.ok_bind, hnames, horigin,
      List.foldlM_cons, follow_stay hstart (.inr rfl)]
    rfl

/-- A path short enough to be one stays so on the way that a search takes. -/
theorem reach_origin_le (hname : '/' ∉ name.toList)
    (hpath : checkPath (Path.join directory name) = .ok ()) :
    reach (if Path.isAbsolute directory then "/" else ".") +
      Path.namesSize (Path.folders directory) + (name.utf8ByteSize + 1) ≤ pathLimit + 1 := by
  obtain ⟨-, -, hlimit⟩ := checkPath_eq_ok_iff.mp hpath
  have hsize := Path.namesSize_names (Path.join directory name)
  have hlast : Path.namesSize (Path.folders directory ++ [name]) =
      Path.namesSize (Path.folders directory) + (name.utf8ByteSize + 1) := by
    simp [Path.namesSize]
  rw [Path.names_join directory hname, hlast, Path.isAbsolute_join directory hname] at hsize
  by_cases habsolute : Path.isAbsolute directory
  · have hroot : reach "/" = 1 := by decide
    rw [if_pos habsolute] at hsize ⊢
    omega
  · have hdot : reach "." = 0 := by decide
    rw [if_neg habsolute] at hsize ⊢
    omega

/-- No folder has a NUL in it, if the path to a name behind it has none. -/
theorem nul_not_mem_folders (hname : '/' ∉ name.toList)
    (hpath : checkPath (Path.join directory name) = .ok ()) :
    ∀ folder ∈ Path.folders directory, Char.ofNat 0 ∉ folder.toList := by
  obtain ⟨hclean, -, -⟩ := checkPath_eq_ok_iff.mp hpath
  intro folder hfolder hnul
  refine hclean (Path.mem_of_mem_names ?_ hnul)
  rw [Path.names_join directory hname]
  exact List.mem_append_left _ hfolder

/-- A pattern of marks in an escaped directory is read as it was put together, and the search goes
through the folders of the directory. -/
theorem search_escape (t : FileTree) (directory : String) {marks : List Mark}
    (hslash : '/' ∉ marks.flatMap Mark.text) :
    t.search (Path.join (escape directory) (String.ofList (marks.flatMap Mark.text))) =
      .ok (Path.sort (t.inOrder.searchFrom
        ((Path.folders directory).map exactTokens ++ [marks.map Mark.token])
        (if Path.isAbsolute directory then "/" else "."))) := by
  have hpattern : '/' ∉ (String.ofList (marks.flatMap Mark.text)).toList := by
    rwa [String.toList_ofList]
  have hparse : (Path.names (Path.join (escape directory)
      (String.ofList (marks.flatMap Mark.text)))).mapM (fun n => parse n.toList) =
        .ok ((Path.folders directory).map exactTokens ++ [marks.map Mark.token]) := by
    rw [Path.names_join _ hpattern, folders_escape, Outcome.mapM_eq_ok_iff]
    refine List.rel_append ?_ (.cons ?_ .nil)
    · rw [List.forall₂_map_left_iff, List.forall₂_map_right_iff, List.forall₂_same]
      intro folder _
      rw [isWildcards.escaped]
      exact isWildcards.read _
    · rw [String.toList_ofList]
      exact isWildcards.read marks
  have hdepths : ∀ p ∈ (Path.folders directory).map exactTokens ++ [marks.map Mark.token],
      p ≠ [Token.anyDepth] := by
    intro p hp
    rcases List.mem_append.mp hp with hp | hp
    · obtain ⟨folder, -, rfl⟩ := List.mem_map.mp hp
      exact tokens_ne_anyDepth _
    · rw [List.mem_singleton.mp hp]
      exact tokens_ne_anyDepth marks
  obtain ⟨whole, hwhole⟩ := exists_marks_join directory marks
  have hread : parse (Path.join (escape directory)
      (String.ofList (marks.flatMap Mark.text))).toList = .ok (whole.map Mark.token) := by
    rw [hwhole, String.toList_ofList]
    exact isWildcards.read whole
  rw [search, enumerate, hread, Outcome.ok_bind, hparse, Outcome.ok_bind, joinDepths_eq hdepths,
    Path.isAbsolute_join _ hpattern, isAbsolute_escape]
  rfl

/-- **A search in a directory** finds the names in it that match, each behind the path on which the
search arrives; in a directory through whose folders it does not come it finds nothing. -/
theorem search_join (hwf : t.WellFormed) (hfolder : t.IsFolder directory place)
    (hname : '/' ∉ name.toList) (hpath : checkPath (Path.join directory name) = .ok ())
    {marks : List Mark} (hany : Mark.any ∈ marks) (hlength : 2 < marks.length)
    (hslash : '/' ∉ marks.flatMap Mark.text) :
    t.search (Path.join (escape directory) (String.ofList (marks.flatMap Mark.text))) =
      .ok (Path.sort (if Path.isSearchable directory then
        (t.inOrder.matching place marks).map (below (approach directory)) else [])) := by
  have hfolder := ((rearranges_inOrder t).isFolder_iff hwf).mpr hfolder
  have hwf := (rearranges_inOrder t).wellFormed hwf
  obtain ⟨hway, harrive⟩ := searchFrom_names hwf (resolve_origin hfolder) (walk_folders hfolder)
    hfolder.2 (fun _ hmem => not_mem_of_mem_folders hmem) (nul_not_mem_folders hname hpath)
    (reach_origin_le hname hpath) [marks.map Mark.token]
  rw [goesAstray_folders] at hway harrive
  rw [search_escape t directory hslash, hway]
  by_cases hsearchable : Path.isSearchable directory
  · rw [hsearchable] at harrive ⊢
    obtain ⟨hresolve, -⟩ := harrive rfl
    rw [if_neg (by decide), if_pos rfl, searchFrom_last hresolve
      (isDirectory_of_resolve hresolve hfolder.2) hany hlength]
    rfl
  · simp only [hsearchable]
    rfl

/-- A name that is looked for as it is leads to one path at most. -/
theorem searchFrom_exactTokens (hwf : t.WellFormed) (name : String) (rest : NamePatterns)
    (path : String) :
    t.searchFrom (exactTokens name :: rest) path = [] ∨
      t.searchFrom (exactTokens name :: rest) path = t.searchFrom rest (below path name) := by
  have hone (c : Prop) [Decidable c] :
      (if c then [below path name] else []).flatMap (t.searchFrom rest) = [] ∨
        (if c then [below path name] else []).flatMap (t.searchFrom rest) =
          t.searchFrom rest (below path name) := by
    by_cases hc : c
    · rw [if_pos hc]
      exact .inr (List.flatMap_singleton _ _)
    · rw [if_neg hc]
      exact .inl rfl
  have hdepth : exactTokens name ≠ [.anyDepth] := tokens_ne_anyDepth _
  have hliteral : literalText? (exactTokens name) =
      if name.toList.any isSpecial then none else some name.toList := literalText?_marks _
  rw [searchFrom_cons hdepth, hliteral]
  by_cases hspecial : name.toList.any isSpecial
  · rw [if_pos hspecial]
    by_cases hdirectory : t.isDirectory path = true
    · simp only [hdirectory, if_true]
      cases hresolve : t.resolve path with
      | error fault =>
          simp only [nameMatches, hresolve]
          exact .inl rfl
      | ok place =>
          rw [nameMatches_exactTokens hwf hresolve hspecial]
          exact hone _
    · simp only [hdirectory]
      exact .inl rfl
  · rw [if_neg hspecial]
    simp only [String.ofList_toList, literalMatches]
    split
    · exact hone _
    · exact hone _

/-- Names that are looked for as they are lead to one path at most. -/
theorem exists_searchFrom_names (hwf : t.WellFormed) (names : List String) (rest : NamePatterns)
    (path : String) :
    ∃ base, t.searchFrom (names.map exactTokens ++ rest) path = [] ∨
      t.searchFrom (names.map exactTokens ++ rest) path = t.searchFrom rest base := by
  induction names generalizing path with
  | nil => exact ⟨path, .inr rfl⟩
  | cons name names ih =>
      rw [List.map_cons, List.cons_append]
      rcases searchFrom_exactTokens hwf name (names.map exactTokens ++ rest) path with hnone | hnext
      · exact ⟨path, .inl hnone⟩
      · rw [hnext]
        exact ih (below path name)

/-- **A search in any directory** finds nothing, or the names in one place that match. -/
theorem exists_search_escape (hwf : t.WellFormed) (directory : String) {marks : List Mark}
    (hany : Mark.any ∈ marks) (hlength : 2 < marks.length) (hslash : '/' ∉ marks.flatMap Mark.text) :
    ∃ paths, t.search (Path.join (escape directory) (String.ofList (marks.flatMap Mark.text))) =
        .ok (Path.sort paths) ∧
      (paths = [] ∨ ∃ base place, paths = (t.inOrder.matching place marks).map (below base)) := by
  have hwf := (rearranges_inOrder t).wellFormed hwf
  refine ⟨_, search_escape t directory hslash, ?_⟩
  obtain ⟨base, hnone | hlast⟩ := exists_searchFrom_names hwf (Path.folders directory)
    [marks.map Mark.token] (if Path.isAbsolute directory then "/" else ".")
  · exact .inl hnone
  · rw [hlast]
    by_cases hdirectory : t.inOrder.isDirectory base = true
    · cases hresolve : t.inOrder.resolve base with
      | error fault =>
          simp [isDirectory, find, hresolve] at hdirectory
      | ok place =>
          exact .inr ⟨base, place, searchFrom_last hresolve hdirectory hany hlength⟩
    · rw [searchFrom_cons (tokens_ne_anyDepth marks), literalText?_of_any hany]
      simp only [hdirectory]
      exact .inl rfl

/-- What a search finds in a directory is the thing of this name in it. -/
theorem resolve_found (hwf : t.WellFormed) (hfolder : t.IsFolder directory place)
    (hname : '/' ∉ name.toList) (hpath : checkPath (Path.join directory name) = .ok ())
    (hsearchable : Path.isSearchable directory) {found : String} (hempty : found ≠ "")
    (hslash : '/' ∉ found.toList) (hnul : Char.ofNat 0 ∉ found.toList)
    (hsize : found.utf8ByteSize ≤ name.utf8ByteSize) :
    t.resolve (below (approach directory) found) = t.follow place found := by
  obtain ⟨-, harrive⟩ := searchFrom_names hwf (resolve_origin hfolder) (walk_folders hfolder)
    hfolder.2 (fun _ hmem => not_mem_of_mem_folders hmem) (nul_not_mem_folders hname hpath)
    (reach_origin_le hname hpath) []
  rw [goesAstray_folders, hsearchable] at harrive
  obtain ⟨hresolve, hroom⟩ := harrive rfl
  exact resolve_below hresolve hfolder.2 hslash hnul (by rw [← approach] at hroom; omega)
    fun _ => hempty

end FileTree

end SeviriImagery
