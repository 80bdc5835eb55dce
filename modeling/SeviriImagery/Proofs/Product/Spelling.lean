import SeviriImagery.Proofs.Path
import SeviriImagery.Proofs.Product.Name

/-!
# How names of products are spelled

A name of a product is written as a directory and its four parts, with a slash before the parts and
colons between them.  Neither a slash nor a colon can stand in a part, so the last slash of a text
and the colons behind it take it apart in one way only, whatever stands in the directory
(`ProductName.ofText_eq_ok_iff_isSpelled`).

A text may leave the directory out, and then the working directory is meant; or it may have nothing
before its only slash, and then the root is meant.  A name that is shown has its directory written
out, so that it is read back as it is (`ProductName.IsSpelled.shown`).
-/

namespace SeviriImagery

namespace Text

variable {separator : Char} {text before behind : List Char}

/-- A text that cannot be split at a separator has none. -/
theorem splitLast_eq_none_iff : splitLast separator text = none ↔ separator ∉ text := by
  induction text with
  | nil => simp [splitLast]
  | cons c rest ih =>
      unfold splitLast
      cases hrest : splitLast separator rest with
      | none =>
          rw [hrest] at ih
          have hnot := ih.mp rfl
          by_cases hc : c = separator
          · simp [hc]
          · simp [hc, hnot, Ne.symm hc]
      | some split =>
          have hin : separator ∈ rest := by
            by_contra hnot
            rw [ih.mpr hnot] at hrest
            cases hrest
          simp [hin]

/-- A text that is split at a separator has one. -/
theorem mem_of_splitLast {split : List Char × List Char}
    (hsplit : splitLast separator text = some split) : separator ∈ text := by
  by_contra hnot
  rw [splitLast_eq_none_iff.mpr hnot] at hsplit
  cases hsplit

/-- A text is split at the separator that has no other one behind it. -/
theorem splitLast_eq_some_iff : splitLast separator text = some (before, behind) ↔
    text = before ++ separator :: behind ∧ separator ∉ behind := by
  induction text generalizing before with
  | nil => simp [splitLast]
  | cons c rest ih =>
      unfold splitLast
      cases hrest : splitLast separator rest with
      | none =>
          have hnot := splitLast_eq_none_iff.mp hrest
          cases before with
          | nil =>
              by_cases hc : c = separator
              · simpa [hc] using fun hsame : rest = behind => hsame ▸ hnot
              · simp [hc]
          | cons d front =>
              have hlater : rest ≠ front ++ separator :: behind := fun hsame => by
                rw [hsame] at hnot
                exact hnot (List.mem_append_right front List.mem_cons_self)
              by_cases hc : c = separator <;> simp [hc, hlater]
      | some split =>
          obtain ⟨front, rear⟩ := split
          cases before with
          | nil =>
              -- a later separator stands in the way of the first character
              have hfirst : ¬(rest = behind ∧ separator ∉ behind) := fun hgiven =>
                hgiven.2 (hgiven.1 ▸ mem_of_splitLast hrest)
              simpa using fun _ hsame hnot => hfirst ⟨hsame, hnot⟩
          | cons d front' =>
              have hrear := @ih front'
              rw [hrest, Option.some_inj, Prod.mk.injEq] at hrear
              simp [hrear, and_assoc]

/-- A text is its fields, with a separator before each but the first. -/
theorem flatMap_fields (separator : Char) (text : List Char) :
    (fields separator text).flatMap (separator :: ·) = separator :: text := by
  induction text with
  | nil => rfl
  | cons c rest ih =>
      unfold fields
      by_cases hc : c = separator
      · rw [if_pos hc, List.flatMap_cons, ih, hc]
        rfl
      · obtain ⟨first, others, hfields⟩ := List.exists_cons_of_ne_nil (fields_ne_nil separator rest)
        rw [hfields, List.flatMap_cons, List.cons_append, List.cons.injEq] at ih
        rw [if_neg hc, hfields]
        dsimp only
        rw [List.flatMap_cons, List.cons_append, List.cons_append, ih.2]

/-- A text has the fields of which it is made up, if no separator stands in one of them. -/
theorem fields_eq_iff {parts : List (List Char)} (hparts : parts ≠ []) :
    fields separator text = parts ↔
      separator :: text = parts.flatMap (separator :: ·) ∧ ∀ part ∈ parts, separator ∉ part := by
  constructor
  · intro hfields
    subst hfields
    exact ⟨(flatMap_fields separator text).symm, fun _ => not_mem_of_mem_fields⟩
  · rintro ⟨htext, hclean⟩
    induction parts generalizing text with
    | nil => exact absurd rfl hparts
    | cons part others ih =>
        have hpart := fields_of_not_mem (hclean part List.mem_cons_self)
        rw [List.flatMap_cons, List.cons_append, List.cons.injEq] at htext
        cases others with
        | nil =>
            rw [htext.2, List.flatMap_nil, List.append_nil]
            exact hpart
        | cons next behind =>
            have hothers : fields separator (next ++ behind.flatMap (separator :: ·)) =
                next :: behind :=
              ih (List.cons_ne_nil next behind) rfl fun p hp =>
                hclean p (List.mem_cons_of_mem part hp)
            rw [htext.2, List.flatMap_cons, List.cons_append, fields_append, hpart, hothers]
            rfl

end Text

/-- Whether a text can be a part of a name, within a number of bytes. -/
structure NamePart.IsSpelling (limit : Nat) (value : String) : Prop where
  nonempty : value ≠ ""
  fits : value.utf8ByteSize ≤ limit
  plain : ∀ c ∈ value.toList, c ∉ ['/', ':', '*', '?', '[', ']', '-']

/-- A part can be spelled if it passes its check and has no colon in it. -/
theorem NamePart.isSpelling_iff (part : NamePart) {value : String} :
    NamePart.IsSpelling part.limit value ↔ part.check value = .ok () ∧ ':' ∉ value.toList := by
  rw [check_eq_ok_iff]
  constructor
  · rintro ⟨hnonempty, hfits, hplain⟩
    refine ⟨⟨hnonempty, hfits, fun c hc => ?_⟩, fun hcolon => ?_⟩
    · have hother := hplain c hc
      simp only [List.mem_cons, List.not_mem_nil, or_false, not_or] at hother
      simp [isForbidden, hother]
    · exact hplain ':' hcolon (by decide)
  · rintro ⟨⟨hnonempty, hfits, hallowed⟩, hcolon⟩
    refine ⟨hnonempty, hfits, fun c hc hmem => ?_⟩
    have hother : c ≠ ':' := fun hsame => hcolon (hsame ▸ hc)
    have hallowed := hallowed c hc
    simp only [isForbidden, Bool.or_eq_false_iff, beq_eq_false_iff_ne] at hallowed
    simp [hother, hallowed] at hmem

namespace ProductName

/-- What a text begins with to name a directory. -/
inductive Leads : String → String → Prop where
  /-- Nothing stands for the working directory. -/
  | working : Leads "" "."
  /-- A slash alone stands for the root. -/
  | root : Leads "/" "/"
  /-- Anything else before a slash stands for itself. -/
  | directory (path : String) (hpath : path ≠ "") : Leads (path ++ "/") path

/-- The four parts of a name with colons between them. -/
def label (n : ProductName) : String :=
  n.resolution ++ ":" ++ n.productId1 ++ ":" ++ n.productId2 ++ ":" ++ n.timing

/-- Whether a text is a name: four parts that can be parts of one, behind a directory. -/
structure IsSpelled (n : ProductName) (text : String) : Prop where
  resolution : NamePart.IsSpelling 1 n.resolution
  productId1 : NamePart.IsSpelling 12 n.productId1
  productId2 : NamePart.IsSpelling 9 n.productId2
  timing : NamePart.IsSpelling 12 n.timing
  directory : ∃ front, Leads front n.directory ∧ text = front ++ n.label

variable {n : ProductName} {text directory label : String}

/-- Nothing in front of a name leads to a directory without a name. -/
theorem Leads.directory_ne_empty {front : String} (hleads : Leads front directory) :
    directory ≠ "" := by
  cases hleads with
  | working => decide
  | root => decide
  | directory path hpath => exact hpath

/-- A text is taken apart at its last slash. -/
theorem splitDirectory_eq_iff : splitDirectory text = (directory, label) ↔
    '/' ∉ label.toList ∧ ∃ front, Leads front directory ∧ text = front ++ label := by
  constructor
  · intro hsplit
    unfold splitDirectory at hsplit
    split at hsplit
    · rename_i behind hlast
      obtain ⟨htext, hclean⟩ := Text.splitLast_eq_some_iff.mp hlast
      cases hsplit
      refine ⟨by simpa using hclean, "/", .root, ?_⟩
      rw [← String.toList_inj, htext]
      simp
    · rename_i before behind hnonempty hlast
      obtain ⟨htext, hclean⟩ := Text.splitLast_eq_some_iff.mp hlast
      cases hsplit
      refine ⟨by simpa using hclean, _, .directory _ fun hempty => ?_, ?_⟩
      · rw [← String.toList_inj, String.toList_ofList] at hempty
        exact hnonempty hempty
      · rw [← String.toList_inj, htext]
        simp
    · rename_i hlast
      cases hsplit
      exact ⟨Text.splitLast_eq_none_iff.mp hlast, "", .working, by simp⟩
  · rintro ⟨hclean, front, hleads, rfl⟩
    unfold splitDirectory
    cases hleads with
    | working => rw [String.empty_append, Text.splitLast_eq_none_iff.mpr hclean]
    | root =>
        have hlast : Text.splitLast '/' ("/" ++ label).toList = some ([], label.toList) :=
          Text.splitLast_eq_some_iff.mpr ⟨String.toList_append, hclean⟩
        rw [hlast]
        simp
    | directory path hpath =>
        obtain ⟨c, rest, hchars⟩ : ∃ c rest, directory.toList = c :: rest :=
          List.exists_cons_of_ne_nil (mt String.toList_eq_nil_iff.mp hpath)
        have hlast : Text.splitLast '/' (directory ++ "/" ++ label).toList =
            some (c :: rest, label.toList) :=
          Text.splitLast_eq_some_iff.mpr ⟨by simp [hchars], hclean⟩
        rw [hlast]
        simp [← hchars]

/-- A text is taken apart at its colons. -/
theorem fields_eq_parts_iff (n : ProductName) :
    (Text.fields ':' label.toList).map String.ofList =
        [n.resolution, n.productId1, n.productId2, n.timing] ↔
      label = n.label ∧ ':' ∉ n.resolution.toList ∧ ':' ∉ n.productId1.toList ∧
        ':' ∉ n.productId2.toList ∧ ':' ∉ n.timing.toList := by
  have hparts : (Text.fields ':' label.toList).map String.ofList =
        [n.resolution, n.productId1, n.productId2, n.timing] ↔
      Text.fields ':' label.toList =
        [n.resolution.toList, n.productId1.toList, n.productId2.toList, n.timing.toList] := by
    constructor
    · intro hmap
      have hback := congrArg (List.map String.toList) hmap
      simpa [List.map_map, Function.comp_def] using hback
    · intro hfields
      simp [hfields]
  have hlabel : ':' :: label.toList =
        [n.resolution.toList, n.productId1.toList, n.productId2.toList, n.timing.toList].flatMap
          (':' :: ·) ↔ label = n.label := by
    simp [← String.toList_inj, ProductName.label]
  rw [hparts, Text.fields_eq_iff (List.cons_ne_nil _ _), hlabel]
  simp

/-- The parts of a name that can be spelled hold no slash. -/
theorem IsSpelled.slash_not_mem (hspelled : n.IsSpelled text) : '/' ∉ n.label.toList := by
  have hpart {limit : Nat} {value : String} (hvalue : NamePart.IsSpelling limit value) :
      '/' ∉ value.toList := fun hslash => hvalue.plain '/' hslash (by decide)
  simp [ProductName.label, hpart hspelled.resolution, hpart hspelled.productId1,
    hpart hspelled.productId2, hpart hspelled.timing]

/-- A name is checked and left as it is. -/
theorem checked_eq_ok_iff {m : ProductName} : m.checked = .ok n ↔ m.check = .ok () ∧ m = n := by
  rw [checked]
  cases m.check <;> simp

/-- The names that can be spelled are those that pass the check and have no colon in a part. -/
theorem isSpelled_iff : n.IsSpelled text ↔
    (n.check = .ok () ∧ ':' ∉ n.resolution.toList ∧ ':' ∉ n.productId1.toList ∧
      ':' ∉ n.productId2.toList ∧ ':' ∉ n.timing.toList) ∧
      ∃ front, Leads front n.directory ∧ text = front ++ n.label := by
  rw [check_eq_ok_iff]
  constructor
  · rintro ⟨hresolution, hproductId1, hproductId2, htiming, hdirectory⟩
    obtain ⟨hcheck1, hcolon1⟩ := (NamePart.isSpelling_iff .resolution).mp hresolution
    obtain ⟨hcheck2, hcolon2⟩ := (NamePart.isSpelling_iff .productId1).mp hproductId1
    obtain ⟨hcheck3, hcolon3⟩ := (NamePart.isSpelling_iff .productId2).mp hproductId2
    obtain ⟨hcheck4, hcolon4⟩ := (NamePart.isSpelling_iff .timing).mp htiming
    exact ⟨⟨⟨hcheck1, hcheck2, hcheck3, hcheck4⟩, hcolon1, hcolon2, hcolon3, hcolon4⟩, hdirectory⟩
  · rintro ⟨⟨⟨hcheck1, hcheck2, hcheck3, hcheck4⟩, hcolon1, hcolon2, hcolon3, hcolon4⟩, hdirectory⟩
    exact ⟨(NamePart.isSpelling_iff .resolution).mpr ⟨hcheck1, hcolon1⟩,
      (NamePart.isSpelling_iff .productId1).mpr ⟨hcheck2, hcolon2⟩,
      (NamePart.isSpelling_iff .productId2).mpr ⟨hcheck3, hcolon3⟩,
      (NamePart.isSpelling_iff .timing).mpr ⟨hcheck4, hcolon4⟩, hdirectory⟩

/-- A text is read as the name that it spells, and as no other one. -/
theorem ofText_eq_ok_iff_isSpelled : ofText text = .ok n ↔ n.IsSpelled text := by
  constructor
  · intro hread
    unfold ofText at hread
    cases hsplit : splitDirectory text with
    | mk directory label =>
        rw [hsplit] at hread
        dsimp only at hread
        split at hread
        · rename_i resolution productId1 productId2 timing hfields
          obtain ⟨hcheck, rfl⟩ := checked_eq_ok_iff.mp hread
          obtain ⟨rfl, hcolons⟩ := (fields_eq_parts_iff
            ⟨directory, resolution, productId1, productId2, timing⟩).mp hfields
          exact isSpelled_iff.mpr ⟨⟨hcheck, hcolons⟩, (splitDirectory_eq_iff.mp hsplit).2⟩
        · cases hread
  · intro hspelled
    obtain ⟨⟨hcheck, hcolons⟩, hdirectory⟩ := isSpelled_iff.mp hspelled
    have hsplit := splitDirectory_eq_iff.mpr ⟨hspelled.slash_not_mem, hdirectory⟩
    have hfields := (fields_eq_parts_iff n).mpr ⟨rfl, hcolons⟩
    unfold ofText
    rw [hsplit]
    dsimp only
    rw [hfields]
    exact checked_eq_ok_iff.mpr ⟨hcheck, rfl⟩

/-- A name that is shown is spelled as it is. -/
theorem IsSpelled.shown (hspelled : n.IsSpelled text) : n.IsSpelled n.text := by
  obtain ⟨front, hleads, -⟩ := hspelled.directory
  refine ⟨hspelled.resolution, hspelled.productId1, hspelled.productId2, hspelled.timing, ?_⟩
  refine ⟨n.directory ++ "/", .directory n.directory hleads.directory_ne_empty, ?_⟩
  simp [ProductName.text, label, String.append_assoc]

/-- **A text is read just if it is the spelling of a name, and as this name; and the name is read
back from how it is shown.** -/
theorem read_as_spelled (text : String) :
    (∀ n, ofText text = .ok n ↔ n.IsSpelled text) ∧
      ∀ n, ofText text = .ok n → ofText n.text = .ok n := by
  refine ⟨fun n => ofText_eq_ok_iff_isSpelled, fun n hread => ?_⟩
  have hspelled := ofText_eq_ok_iff_isSpelled.mp hread
  exact ofText_eq_ok_iff_isSpelled.mpr hspelled.shown

/-- With a colon and a slash at the end of the directory, and a letter of two bytes. -/
def spelledName : ProductName := ⟨"a:b/", "H", "é2", "IR_108", "200611141200"⟩

theorem spelledName_read_as_spelled :
    spelledName.IsSpelled "a:b//H:é2:IR_108:200611141200" ∧
      ofText spelledName.text = .ok spelledName := by
  have hread : ofText "a:b//H:é2:IR_108:200611141200" = .ok spelledName := by decide +kernel
  obtain ⟨hspelled, hshown⟩ := read_as_spelled "a:b//H:é2:IR_108:200611141200"
  exact ⟨(hspelled spelledName).mp hread, hshown spelledName hread⟩

end ProductName

end SeviriImagery
