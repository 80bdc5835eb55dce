import Mathlib
import SeviriImagery.Path

/-!
# Names of a path

A name that is joined to a path of a directory becomes the last of its names, and the names before
it depend on the directory alone (`Path.names_join`).  These are the `folders` of the directory: a
slash at its end, which the join makes use of, is not an empty name among them.
-/

namespace SeviriImagery

namespace Text

/-- A text without a separator is a field by itself. -/
theorem fields_of_not_mem {separator : Char} {text : List Char} (htext : separator ∉ text) :
    fields separator text = [text] := by
  induction text with
  | nil => rfl
  | cons c rest ih =>
      simp only [List.mem_cons, not_or] at htext
      rw [fields, if_neg (Ne.symm htext.1), ih htext.2]

/-- No field has the separator in it. -/
theorem not_mem_of_mem_fields {separator : Char} {text field : List Char}
    (hfield : field ∈ fields separator text) : separator ∉ field := by
  induction text generalizing field with
  | nil =>
      simp only [fields, List.mem_singleton] at hfield
      simp [hfield]
  | cons c rest ih =>
      unfold fields at hfield
      by_cases hc : c = separator
      · rw [if_pos hc] at hfield
        rcases List.mem_cons.mp hfield with rfl | hfield
        · simp
        · exact ih hfield
      · rw [if_neg hc] at hfield
        obtain ⟨first, others, hsplit⟩ := List.exists_cons_of_ne_nil (fields_ne_nil separator rest)
        rw [hsplit] at hfield ih
        rcases List.mem_cons.mp hfield with rfl | hfield
        · simp only [List.mem_cons, not_or]
          exact ⟨Ne.symm hc, ih List.mem_cons_self⟩
        · exact ih (List.mem_cons_of_mem first hfield)

/-- A field has only characters of the text. -/
theorem mem_of_mem_fields {separator c : Char} {text field : List Char}
    (hfield : field ∈ fields separator text) (hc : c ∈ field) : c ∈ text := by
  induction text generalizing field with
  | nil =>
      simp only [fields, List.mem_singleton] at hfield
      rwa [hfield] at hc
  | cons d rest ih =>
      unfold fields at hfield
      by_cases hd : d = separator
      · rw [if_pos hd] at hfield
        rcases List.mem_cons.mp hfield with rfl | hfield
        · cases hc
        · exact List.mem_cons_of_mem d (ih hfield hc)
      · rw [if_neg hd] at hfield
        obtain ⟨first, others, hsplit⟩ := List.exists_cons_of_ne_nil (fields_ne_nil separator rest)
        rw [hsplit] at hfield ih
        rcases List.mem_cons.mp hfield with rfl | hfield
        · rcases List.mem_cons.mp hc with rfl | hc
          · exact List.mem_cons_self
          · exact List.mem_cons_of_mem d (ih List.mem_cons_self hc)
        · exact List.mem_cons_of_mem d (ih (List.mem_cons_of_mem first hfield) hc)

/-- The bytes of the fields of a text, a separator of one byte counted with each. -/
theorem sum_utf8Len_fields {separator : Char} (hseparator : separator.utf8Size = 1)
    (text : List Char) :
    ((fields separator text).map fun field => String.utf8Len field + 1).sum =
      String.utf8Len text + 1 := by
  induction text with
  | nil => rfl
  | cons c rest ih =>
      unfold fields
      by_cases hc : c = separator
      · rw [if_pos hc, List.map_cons, List.sum_cons, ih, String.utf8Len_cons, hc, hseparator,
          String.utf8Len_nil]
        omega
      · rw [if_neg hc]
        obtain ⟨first, others, hsplit⟩ := List.exists_cons_of_ne_nil (fields_ne_nil separator rest)
        rw [hsplit, List.map_cons, List.sum_cons] at ih
        rw [hsplit]
        simp only [List.map_cons, List.sum_cons, String.utf8Len_cons]
        omega

end Text

namespace Path

/-- The text of a path without the slash that makes it start at the root. -/
def relativeText (path : String) : List Char :=
  if isAbsolute path then path.toList.drop 1 else path.toList

/-- The names that a path in a directory goes through before the last one. -/
def folders (directory : String) : List String :=
  if directory.isEmpty then []
  else if directory.toList.getLast? == some '/' then (names directory).dropLast
  else names directory

theorem names_eq (path : String) :
    names path = (Text.fields '/' (relativeText path)).map String.ofList := rfl

theorem toList_ne_nil {path : String} (hpath : path ≠ "") : path.toList ≠ [] := by
  intro hnil
  exact hpath (String.toList_eq_nil_iff.mp hnil)

/-- What stands behind a path does not make it absolute. -/
theorem isAbsolute_append {path : String} (hpath : path ≠ "") (text : String) :
    isAbsolute (path ++ text) = isAbsolute path := by
  obtain ⟨c, rest, hchars⟩ := List.exists_cons_of_ne_nil (toList_ne_nil hpath)
  rw [isAbsolute, isAbsolute, String.toList_append, hchars]
  rfl

/-- What stands behind a path stays behind it without its first slash. -/
theorem relativeText_append {path : String} (hpath : path ≠ "") (text : String) :
    relativeText (path ++ text) = relativeText path ++ text.toList := by
  unfold relativeText
  rw [isAbsolute_append hpath, String.toList_append]
  split
  · rw [List.drop_append_of_le_length (List.length_pos_iff.mpr (toList_ne_nil hpath))]
  · rfl

/-- A name without a slash is not an absolute path. -/
theorem isAbsolute_of_not_mem {name : String} (hname : '/' ∉ name.toList) :
    isAbsolute name = false := by
  unfold isAbsolute
  cases hchars : name.toList with
  | nil => rfl
  | cons c rest =>
      rw [hchars] at hname
      simp only [List.mem_cons, not_or] at hname
      simpa using Ne.symm hname.1

/-- A text without a slash is a name. -/
theorem names_of_not_mem {name : String} (hname : '/' ∉ name.toList) : names name = [name] := by
  rw [names_eq, relativeText, isAbsolute_of_not_mem hname]
  simp [Text.fields_of_not_mem hname]

/-- Behind a path that ends with a slash a new name begins. -/
theorem exists_fields_of_endsWithSlash {path : String} (hslash : path.toList.getLast? = some '/') :
    ∃ before, ∀ text : List Char, '/' ∉ text →
      Text.fields '/' (relativeText path ++ text) = before ++ [text] := by
  obtain ⟨front, hfront⟩ := List.getLast?_eq_some_iff.mp hslash
  have hroot : relativeText path = [] ∨ ∃ inner, relativeText path = inner ++ ['/'] := by
    unfold relativeText
    rw [hfront]
    split
    · cases front with
      | nil => exact .inl rfl
      | cons c inner => exact .inr ⟨inner, rfl⟩
    · exact .inr ⟨front, rfl⟩
  rcases hroot with hroot | ⟨inner, hinner⟩
  · refine ⟨[], fun text htext => ?_⟩
    rw [hroot, List.nil_append, List.nil_append, Text.fields_of_not_mem htext]
  · refine ⟨Text.fields '/' inner, fun text htext => ?_⟩
    rw [hinner, List.append_assoc, List.singleton_append, Text.fields_append,
      Text.fields_of_not_mem htext]

/-- The names of a path that ends with a slash end with an empty one, and a name behind it takes its
place. -/
theorem names_append_of_endsWithSlash {path : String}
    (hslash : path.toList.getLast? = some '/') :
    names path = (names path).dropLast ++ [""] ∧ ∀ name : String, '/' ∉ name.toList →
      names (path ++ name) = (names path).dropLast ++ [name] := by
  have hpath : path ≠ "" := by
    intro hsame
    subst hsame
    cases hslash
  obtain ⟨before, hbefore⟩ := exists_fields_of_endsWithSlash hslash
  have hnames : names path = before.map String.ofList ++ [""] := by
    have hempty := hbefore [] (by simp)
    rw [List.append_nil] at hempty
    rw [names_eq, hempty, List.map_append]
    rfl
  rw [hnames, List.dropLast_concat]
  refine ⟨rfl, fun name hname => ?_⟩
  rw [names_eq, relativeText_append hpath, hbefore _ hname, List.map_append]
  simp

/-- A slash and a name behind a path add this name. -/
theorem names_append_slash {path : String} (hpath : path ≠ "") {name : String}
    (hname : '/' ∉ name.toList) : names (path ++ "/" ++ name) = names path ++ [name] := by
  have htext : relativeText (path ++ "/" ++ name) = relativeText path ++ '/' :: name.toList := by
    rw [String.append_assoc, relativeText_append hpath, String.toList_append]
    rfl
  rw [names_eq, htext, Text.fields_append, Text.fields_of_not_mem hname, List.map_append]
  simp [names_eq]

/-- **A name joined to a directory becomes the last one.** -/
theorem names_join (directory : String) {name : String} (hname : '/' ∉ name.toList) :
    names (join directory name) = folders directory ++ [name] := by
  rw [join, folders, isAbsolute_of_not_mem hname, Bool.false_or]
  by_cases hempty : directory.isEmpty
  · rw [if_pos hempty, if_pos hempty, List.nil_append, names_of_not_mem hname]
  · rw [if_neg hempty, if_neg hempty]
    have hdirectory : directory ≠ "" := by simpa using hempty
    by_cases hslash : directory.toList.getLast? = some '/'
    · rw [if_pos (by simp [hslash]), if_pos (by simp [hslash])]
      exact (names_append_of_endsWithSlash hslash).2 name hname
    · rw [if_neg (by simp [hslash]), if_neg (by simp [hslash])]
      exact names_append_slash hdirectory hname

/-- A path to a name begins where the path of its directory does. -/
theorem isAbsolute_join (directory : String) {name : String} (hname : '/' ∉ name.toList) :
    isAbsolute (join directory name) = isAbsolute directory := by
  rw [join, isAbsolute_of_not_mem hname, Bool.false_or]
  by_cases hempty : directory.isEmpty
  · have hdirectory : directory = "" := by simpa using hempty
    rw [if_pos hempty, isAbsolute_of_not_mem hname, hdirectory]
    rfl
  · rw [if_neg hempty]
    have hdirectory : directory ≠ "" := by simpa using hempty
    split
    · exact isAbsolute_append hdirectory name
    · rw [String.append_assoc, isAbsolute_append hdirectory]

/-- A path to a name in a directory is not empty. -/
theorem join_ne_empty {directory name : String} (hdirectory : directory ≠ "")
    (hname : '/' ∉ name.toList) : join directory name ≠ "" := by
  rw [join, isAbsolute_of_not_mem hname, Bool.false_or, if_neg (by simpa using hdirectory)]
  split
  · simp [hdirectory]
  · simp [hdirectory]

/-- The path of a name in a directory has no characters but theirs and a slash. -/
theorem mem_of_mem_join {directory name : String} {c : Char}
    (hc : c ∈ (join directory name).toList) :
    c ∈ directory.toList ∨ c = '/' ∨ c ∈ name.toList := by
  unfold join at hc
  split at hc
  · exact .inr (.inr hc)
  · split at hc
    · rw [String.toList_append, List.mem_append] at hc
      exact hc.imp_right .inr
    · rw [String.toList_append, String.toList_append, List.mem_append, List.mem_append] at hc
      rcases hc with (hc | hc) | hc
      · exact .inl hc
      · exact .inr (.inl (by simpa using hc))
      · exact .inr (.inr hc)

/-- It has all of their characters. -/
theorem mem_join {directory name : String} (hname : '/' ∉ name.toList) {c : Char}
    (hc : c ∈ directory.toList ∨ c ∈ name.toList) : c ∈ (join directory name).toList := by
  rw [join, isAbsolute_of_not_mem hname, Bool.false_or]
  by_cases hempty : directory.isEmpty
  · have hdirectory : directory = "" := by simpa using hempty
    rw [if_pos hempty]
    rcases hc with hc | hc
    · rw [hdirectory] at hc
      cases hc
    · exact hc
  · rw [if_neg hempty]
    split <;> rcases hc with hc | hc <;> simp [hc]

/-- The names of a directory are its folders, and perhaps an empty one behind them. -/
theorem names_eq_folders (directory : String) :
    names directory = folders directory ∨ names directory = folders directory ++ [""] := by
  rw [folders]
  by_cases hempty : directory.isEmpty
  · have hdirectory : directory = "" := by simpa using hempty
    rw [if_pos hempty, hdirectory]
    exact .inr rfl
  · rw [if_neg hempty]
    by_cases hslash : directory.toList.getLast? = some '/'
    · rw [if_pos (by simp [hslash])]
      exact .inr (names_append_of_endsWithSlash hslash).1
    · rw [if_neg (by simp [hslash])]
      exact .inl rfl

/-- No name on a path has a slash in it. -/
theorem not_mem_of_mem_names {path name : String} (hname : name ∈ names path) :
    '/' ∉ name.toList := by
  obtain ⟨field, hfield, rfl⟩ := List.mem_map.mp hname
  rw [String.toList_ofList]
  exact Text.not_mem_of_mem_fields hfield

/-- A name on a path has only characters of the path. -/
theorem mem_of_mem_names {path name : String} {c : Char} (hname : name ∈ names path)
    (hc : c ∈ name.toList) : c ∈ path.toList := by
  obtain ⟨field, hfield, rfl⟩ := List.mem_map.mp hname
  rw [String.toList_ofList] at hc
  have htext := Text.mem_of_mem_fields hfield hc
  split at htext
  · exact List.mem_of_mem_drop htext
  · exact htext

/-- The bytes of some names, with a slash behind each. -/
def namesSize (names : List String) : Nat := (names.map fun name => name.utf8ByteSize + 1).sum

/-- The bytes of a path are those of its names with slashes between them, and a slash in front of a
path from the root. -/
theorem namesSize_names (path : String) :
    namesSize (names path) + (if isAbsolute path then 1 else 0) = path.utf8ByteSize + 1 := by
  have hfields := @Text.sum_utf8Len_fields '/' rfl (relativeText path)
  have hnames : namesSize (names path) =
      ((Text.fields '/' (relativeText path)).map fun field => String.utf8Len field + 1).sum := by
    rw [namesSize, names_eq, List.map_map]
    congr 1
    apply List.map_congr_left
    intro field _
    simp [String.utf8ByteSize_ofList]
  rw [hnames, hfields, ← String.utf8Len_toList, relativeText]
  by_cases habsolute : isAbsolute path
  · rw [if_pos habsolute, if_pos habsolute]
    unfold isAbsolute at habsolute
    cases hchars : path.toList with
    | nil => rw [hchars] at habsolute; cases habsolute
    | cons c rest =>
        rw [hchars] at habsolute
        have hc : c = '/' := by simpa using habsolute
        rw [hc, String.utf8Len_cons]
        rfl
  · rw [if_neg habsolute, if_neg habsolute, Nat.add_zero]

/-- A path leads nowhere but to the working directory if it says so at its front and has no other
name. -/
theorem isHere_iff {path : String} :
    isHere path = true ↔ isAbsolute path = false ∧ (names path).head? = some "." ∧
      ∀ name ∈ names path, name = "" ∨ name = "." := by
  have hwalk : ∀ walk : List Step, walk = (names path).filterMap (fun name =>
      if name = "" ∨ name = "." then none else some (if name = ".." then .up else .down name)) →
        (walk = [] ↔ ∀ name ∈ names path, name = "" ∨ name = ".") ∧ walk ≠ [.start false] := by
    intro walk hsame
    subst hsame
    constructor
    · rw [List.filterMap_eq_nil_iff]
      simp [or_iff_not_imp_left]
    · intro hstart
      have hmem : Step.start false ∈ (names path).filterMap _ := hstart ▸ List.mem_singleton_self _
      obtain ⟨name, -, hname⟩ := List.mem_filterMap.mp hmem
      split at hname
      · cases hname
      · split at hname <;> cases hname
  obtain ⟨hempty, hnone⟩ := hwalk _ rfl
  unfold isHere steps
  simp only
  generalize (names path).filterMap _ = walk at hempty hnone ⊢
  by_cases habsolute : isAbsolute path
  · simp [habsolute]
  · by_cases hhead : (names path).head? = some "."
    · simp [habsolute, hhead, ← hempty]
    · simp [habsolute, hhead, hnone]

/-- The folders of a directory are names of it. -/
theorem mem_names_of_mem_folders {directory name : String} (hname : name ∈ folders directory) :
    name ∈ names directory := by
  rcases names_eq_folders directory with hnames | hnames
  · rwa [hnames]
  · rw [hnames]
    exact List.mem_append_left _ hname

end Path

end SeviriImagery
