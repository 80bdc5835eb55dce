import SeviriImagery.Proofs.Product.Name

/-!
# Finding files by their patterns

A file of a product is looked for by the last name of the pattern for its kind.  Whether it is found
depends on the first product identifier alone: the pattern leaves six characters for its short form,
but the file's name has the whole identifier there if that is longer, and fills up a shorter one
by its bytes.

So the files of a product can be written under a name that is a proper one and yet are not found
(`ProductName.patterns_find_names`): an identifier may have up to twelve bytes.
-/

namespace SeviriImagery.ProductName

open Wildcard

/-- The tokens of the last name of the pattern for files of a kind. -/
def nameTokens (n : ProductName) (kind : FileKind) : Except WildcardError (List Token) :=
  parse ((Path.names (n.pattern kind)).getLastD "").toList

/-- The pattern for files of a kind finds a name in the product's directory. -/
def Finds (n : ProductName) (kind : FileKind) (name : String) : Prop :=
  ∃ tokens, n.nameTokens kind = .ok tokens ∧ isMatch tokens name.toList = true

/-- The first identifier fills the six characters of its short form: it has six, or fewer of one
byte each. -/
def HasShortForm (n : ProductName) : Prop :=
  n.productId1.toList.length = 6 ∨
    n.productId1.toList.length < 6 ∧ n.productId1.utf8ByteSize = n.productId1.toList.length

instance (n : ProductName) : Decidable n.HasShortForm := inferInstanceAs (Decidable (_ ∨ _))

variable {n : ProductName}

/-- A text has at least as many bytes as characters. -/
theorem length_le_utf8ByteSize (text : String) : text.toList.length ≤ text.utf8ByteSize := by
  rw [← String.utf8Len_toList]
  induction text.toList with
  | nil => exact Nat.le_refl 0
  | cons c rest ih =>
      rw [String.utf8Len_cons, List.length_cons]
      exact Nat.add_le_add ih c.utf8Size_pos

theorem hasShortForm_iff :
    n.HasShortForm ↔ (Text.underscorePadded n.productId1 6).toList.length = 6 := by
  have hle := length_le_utf8ByteSize n.productId1
  rw [HasShortForm, Text.toList_underscorePadded, List.length_append, List.length_replicate]
  omega

/-- The last name of a pattern is read as it was put together: a question mark stands for any
character, and every other character for itself. -/
theorem nameTokens_eq (hcheck : n.check = .ok ()) (kind : FileKind) :
    n.nameTokens kind = .ok ((n.fileMarks kind).map Mark.token) := by
  have hslash : '/' ∉ (n.filePattern kind).toList :=
    fun hmem => (filePattern_clean hcheck hmem).1 rfl
  rw [nameTokens, pattern, Path.names_join _ hslash, List.getLastD_concat, filePattern_eq hcheck,
    String.toList_ofList]
  exact isWildcards.read _

/-- A pattern finds a name that has a character for each of its marks. -/
theorem finds_iff (hcheck : n.check = .ok ()) {kind : FileKind} {name : String} :
    n.Finds kind name ↔ List.Forall₂ Mark.Allows (n.fileMarks kind) name.toList := by
  rw [Finds, nameTokens_eq hcheck]
  constructor
  · intro hfound
    obtain ⟨tokens, hread, hmatch⟩ := hfound
    cases hread
    exact isWildcards.accepts_iff.mp hmatch
  · exact fun hmatch => ⟨_, rfl, isWildcards.accepts_iff.mpr hmatch⟩

/-- A pattern finds the files of its kind and no others, if the first identifier has a short
form. -/
theorem finds_memberName_iff (hcheck : n.check = .ok ()) (m : ProductMember) (kind : FileKind) :
    n.Finds kind (n.memberName m) ↔ n.HasShortForm ∧ m.kind = kind := by
  rw [finds_iff hcheck, hasShortForm_iff, allows_memberName_iff]

/-- A product that can be written has names that its patterns find. -/
theorem IsWritable.finds_memberName (hname : n.IsWritable) (m : ProductMember) :
    n.Finds m.kind (n.memberName m) :=
  (finds_memberName_iff hname.check m m.kind).mpr ⟨hasShortForm_iff.mpr hname.length_short, rfl⟩

/-- **The files of a product are found under its name** if its first identifier has a short form,
and none of them is found if it has not. -/
theorem patterns_find_names (n : ProductName) (hcheck : n.check = .ok ()) :
    (∀ kind, n.nameTokens kind = .ok ((n.fileMarks kind).map Mark.token)) ∧
      (n.Finds .prologue n.prologueName ↔ n.HasShortForm) ∧
      (n.Finds .epilogue n.epilogueName ↔ n.HasShortForm) ∧
      ∀ sequence : UInt16, n.Finds .segment (n.segmentName sequence.toNat) ↔ n.HasShortForm := by
  refine ⟨nameTokens_eq hcheck, ?_, ?_, fun sequence => ?_⟩
  · rw [← memberName_prologue, finds_memberName_iff hcheck]
    exact and_iff_left rfl
  · rw [← memberName_epilogue, finds_memberName_iff hcheck]
    exact and_iff_left rfl
  · rw [← memberName_segment, finds_memberName_iff hcheck]
    exact and_iff_left rfl

/-- An identifier of four letters has a short form.  One of eight letters has none, and neither has
a single letter of two bytes. -/
theorem patterns_find_names_msg2 :
    (∃ n : ProductName, n.productId1 = "MSG2" ∧ n.check = .ok () ∧ n.Finds .prologue n.prologueName ∧
      n.Finds .epilogue n.epilogueName ∧ n.Finds .segment (n.segmentName 65535)) ∧
    (∃ n : ProductName, n.productId1 = "MSG3_RSS" ∧ n.check = .ok () ∧
      ¬n.Finds .prologue n.prologueName ∧ ¬n.Finds .segment (n.segmentName 1)) ∧
    ∃ n : ProductName, n.productId1 = "é" ∧ n.check = .ok () ∧ ¬n.Finds .epilogue n.epilogueName := by
  refine ⟨⟨⟨"/data", "H", "MSG2", "IR_108", "200611141200"⟩, rfl, rfl, ?_⟩,
    ⟨⟨"/data", "H", "MSG3_RSS", "IR_108", "200611141200"⟩, rfl, rfl, ?_⟩,
    ⟨⟨"/data", "H", "é", "IR_108", "200611141200"⟩, rfl, rfl, ?_⟩⟩
  · obtain ⟨-, hprologue, hepilogue, hsegment⟩ :=
      patterns_find_names ⟨"/data", "H", "MSG2", "IR_108", "200611141200"⟩ rfl
    exact ⟨hprologue.mpr (by decide), hepilogue.mpr (by decide), (hsegment 65535).mpr (by decide)⟩
  · obtain ⟨-, hprologue, -, hsegment⟩ :=
      patterns_find_names ⟨"/data", "H", "MSG3_RSS", "IR_108", "200611141200"⟩ rfl
    exact ⟨fun hfound => absurd (hprologue.mp hfound) (by decide),
      fun hfound => absurd ((hsegment 1).mp hfound) (by decide)⟩
  · obtain ⟨-, -, hepilogue, -⟩ :=
      patterns_find_names ⟨"/data", "H", "é", "IR_108", "200611141200"⟩ rfl
    exact fun hfound => absurd (hepilogue.mp hfound) (by decide)

end SeviriImagery.ProductName
