import SeviriImagery.Proofs.Product.Pattern

/-!
# Products that keep apart

A question mark in a pattern stands for any character, a hyphen too, and the parts of a name have no
fixed length.  Still no two patterns run into each other.  In front of the first identifier they ask
for the same number of characters, and no part of a name has a hyphen; so the first hyphen behind
this front ends the first identifier for either pattern, the next one ends the second, and the time
is what is left (`ProductName.exists_shape_of_finds`).

So a file is found by the patterns of two products only if these are for the same kind of file, and
the products agree in all that the pattern shows of them (`ProductName.SharesFiles`): for segments
in everything, for prologues and epilogues in everything but the second identifier.
-/

namespace SeviriImagery

open Wildcard

namespace Wildcard

/-- A text without question marks is asked for as it stands. -/
theorem forall₂_allows_iff_eq {text name : List Char} (hplain : '?' ∉ text) :
    List.Forall₂ Mark.Allows (text.map Mark.ofChar) name ↔ name = text := by
  have hmarks : text.map Mark.ofChar = text.map Mark.exactly := by
    refine List.map_congr_left fun c hc => ?_
    have hc : c ≠ '?' := fun hsame => hplain (hsame ▸ hc)
    rw [Mark.ofChar, if_neg hc]
  rw [hmarks, forall₂_exactly_iff]

/-- A name that matches two runs of marks is a name for the one and a name for the other. -/
theorem exists_append_of_forall₂ {front behind : List Mark} {name : List Char}
    (hmatch : List.Forall₂ Mark.Allows (front ++ behind) name) :
    ∃ a b, name = a ++ b ∧ List.Forall₂ Mark.Allows front a ∧
      List.Forall₂ Mark.Allows behind b := by
  have hfront := List.forall₂_take front.length hmatch
  have hbehind := List.forall₂_drop front.length hmatch
  rw [List.take_left] at hfront
  rw [List.drop_left] at hbehind
  exact ⟨_, _, (List.take_append_drop front.length name).symm, hfront, hbehind⟩

end Wildcard

/-- What stands before the first hyphen of a text is told from what stands behind it. -/
theorem eq_of_append_hyphen {a b restA restB : List Char} (ha : '-' ∉ a) (hb : '-' ∉ b)
    (hsame : a ++ '-' :: restA = b ++ '-' :: restB) : a = b ∧ restA = restB := by
  induction a generalizing b with
  | nil =>
      cases b with
      | nil => exact ⟨rfl, (List.cons.inj hsame).2⟩
      | cons c b => exact absurd (List.cons.inj hsame).1 (List.ne_of_not_mem_cons hb)
  | cons c a ih =>
      cases b with
      | nil => exact absurd (List.cons.inj hsame).1.symm (List.ne_of_not_mem_cons ha)
      | cons d b =>
          obtain ⟨rfl, hothers⟩ := List.cons.inj hsame
          obtain ⟨hfront, hrest⟩ := ih (List.not_mem_of_not_mem_cons ha)
            (List.not_mem_of_not_mem_cons hb) hothers
          exact ⟨by rw [hfront], hrest⟩

namespace ProductName

variable {a b n : ProductName} {kind other : FileKind} {file : String}

/-- Two products agree in all that the pattern for a kind of file shows of them. -/
def SharesFiles (kind : FileKind) (a b : ProductName) : Prop :=
  a.resolution = b.resolution ∧
    Text.underscorePadded a.productId1 12 = Text.underscorePadded b.productId1 12 ∧
    (kind = .segment →
      Text.underscorePadded a.productId2 9 = Text.underscorePadded b.productId2 9) ∧
    a.timing = b.timing

instance (kind : FileKind) (a b : ProductName) : Decidable (SharesFiles kind a b) :=
  inferInstanceAs (Decidable (_ ∧ _))

/-- A resolution is a single character. -/
theorem length_resolution (hcheck : n.check = .ok ()) : n.resolution.toList.length = 1 := by
  obtain ⟨hresolution, -⟩ := check_eq_ok_iff.mp hcheck
  obtain ⟨hnotEmpty, hshort, -⟩ := NamePart.check_eq_ok_iff.mp hresolution
  have hone : n.resolution.utf8ByteSize ≤ 1 := hshort
  have hle := length_le_utf8ByteSize n.resolution
  have hpos : n.resolution.toList.length ≠ 0 := by simpa using hnotEmpty
  omega

/-- No part of a name has a hyphen, nor has an identifier that is filled up. -/
theorem hyphen_not_mem (kind : FileKind) (hcheck : n.check = .ok ()) :
    '-' ∉ (Text.underscorePadded n.productId1 12).toList ∧
      '-' ∉ (Text.underscorePadded (n.identifierFor kind) 9).toList := by
  obtain ⟨-, hproductId1, hproductId2, -⟩ := check_eq_ok_iff.mp hcheck
  have hpart : ∀ {part : NamePart} {text : String}, part.check text = .ok () →
      '-' ∉ text.toList := by
    intro part text htext hmem
    have hforbidden := (NamePart.check_eq_ok_iff.mp htext).2.2 '-' hmem
    revert hforbidden
    decide
  have hpadded : ∀ (text : String) width, '-' ∉ text.toList →
      '-' ∉ (Text.underscorePadded text width).toList := by
    intro text width htext hmem
    rw [Text.toList_underscorePadded, List.mem_append] at hmem
    rcases hmem with hmem | hmem
    · exact htext hmem
    · exact absurd (List.eq_of_mem_replicate hmem) (by decide)
  refine ⟨hpadded _ _ (hpart hproductId1), hpadded _ _ ?_⟩
  cases kind with
  | segment => exact hpart hproductId2
  | prologue => exact (by decide : '-' ∉ "_".toList)
  | epilogue => exact (by decide : '-' ∉ "_".toList)

theorem question_not_mem_identifiers (hcheck : n.check = .ok ()) : '?' ∉ n.identifiers kind := by
  intro hmem
  rcases mem_identifiers hmem with hpart | hother | hother
  · have hforbidden := isForbidden_of_mem_partChars hcheck hpart
    revert hforbidden
    decide
  · exact absurd hother (by decide)
  · exact absurd hother (by decide)

/-- **The names that a pattern finds**: the resolution, twelve characters, the identifiers, nine
characters for the place of the file, the time, and one character between hyphen and underscore. -/
theorem exists_shape_of_finds (hcheck : n.check = .ok ()) (hfinds : n.Finds kind file) :
    ∃ front sequence scan,
      file.toList = n.resolution.toList ++ (front ++ (n.identifiers kind ++ (sequence ++
        ('-' :: n.timing.toList ++ ['-', scan, '_'])))) ∧
      front.length = 12 ∧ sequence.length = 9 ∧
      sequence.head? = some (ProductMember.initial kind) := by
  have hpartPlain : ∀ c ∈ n.partChars, c ≠ '?' := by
    intro c hc hsame
    have hforbidden := isForbidden_of_mem_partChars hcheck hc
    rw [hsame] at hforbidden
    revert hforbidden
    decide
  have hresolution : '?' ∉ n.resolution.toList :=
    fun hmem => hpartPlain _ (by simp [partChars, hmem]) rfl
  have htiming : '?' ∉ '-' :: n.timing.toList := by
    rw [List.mem_cons, not_or]
    exact ⟨by decide, fun hmem => hpartPlain _ (by simp [partChars, hmem]) rfl⟩
  have hmatch := (finds_iff hcheck).mp hfinds
  simp only [fileMarks, toList_filePattern, List.map_append, List.append_assoc] at hmatch
  obtain ⟨resolution, rest, hfile, hown, hmatch⟩ := exists_append_of_forall₂ hmatch
  obtain ⟨front, rest, rfl, hfront, hmatch⟩ := exists_append_of_forall₂ hmatch
  obtain ⟨identifiers, rest, rfl, hidentifiers, hmatch⟩ := exists_append_of_forall₂ hmatch
  obtain ⟨sequence, rest, rfl, hsequence, hmatch⟩ := exists_append_of_forall₂ hmatch
  obtain ⟨timing, scan, rfl, htime, hscan⟩ := exists_append_of_forall₂ hmatch
  rw [forall₂_allows_iff_eq hresolution] at hown
  rw [forall₂_allows_iff_eq (question_not_mem_identifiers hcheck)] at hidentifiers
  rw [forall₂_allows_iff_eq htiming] at htime
  subst hown hidentifiers htime
  obtain ⟨c, rfl⟩ : ∃ c, scan = ['-', c, '_'] := by
    have hversion : "-?_".toList.map Mark.ofChar = [.exactly '-', .any, .exactly '_'] := rfl
    simp only [hversion, List.forall₂_cons_left_iff, List.forall₂_nil_left_iff] at hscan
    obtain ⟨first, -, hfirst, ⟨c, -, -, ⟨last, -, hlast, rfl, rfl⟩, rfl⟩, rfl⟩ := hscan
    cases hfirst
    cases hlast
    exact ⟨c, rfl⟩
  obtain ⟨marks, hmarks, hlength⟩ : ∃ marks, (sequencePattern kind).toList.map Mark.ofChar =
      .exactly (ProductMember.initial kind) :: marks ∧ marks.length = 8 := by
    cases kind <;> exact ⟨_, rfl, rfl⟩
  rw [hmarks, List.forall₂_cons_left_iff] at hsequence
  obtain ⟨first, others, hfirst, hothers, rfl⟩ := hsequence
  cases hfirst
  refine ⟨front, _, c, hfile, hfront.length_eq.symm, ?_, rfl⟩
  rw [List.length_cons, ← hothers.length_eq, hlength]

/-- **Whether the files of two products run into each other.**  There is a file that the patterns of
both products find just if the patterns are for the same kind of file and the products agree in all
that such a pattern shows of them. -/
theorem exists_common_file_iff (ha : a.check = .ok ()) (hb : b.check = .ok ()) :
    (∃ file, a.Finds kind file ∧ b.Finds other file) ↔ kind = other ∧ SharesFiles kind a b := by
  constructor
  · intro hgiven
    obtain ⟨file, hfindsA, hfindsB⟩ := hgiven
    obtain ⟨frontA, sequenceA, scanA, hshapeA, hfrontA, hlengthA, hheadA⟩ :=
      exists_shape_of_finds ha hfindsA
    obtain ⟨frontB, sequenceB, scanB, hshapeB, hfrontB, hlengthB, hheadB⟩ :=
      exists_shape_of_finds hb hfindsB
    rw [hshapeA] at hshapeB
    have hone := (length_resolution ha).trans (length_resolution hb).symm
    obtain ⟨hresolution, hshape⟩ := List.append_inj hshapeB hone
    obtain ⟨-, hshape⟩ := List.append_inj hshape (hfrontA.trans hfrontB.symm)
    obtain ⟨hfirstA, hsecondA⟩ := hyphen_not_mem kind ha
    obtain ⟨hfirstB, hsecondB⟩ := hyphen_not_mem other hb
    simp only [identifiers, List.append_assoc, List.cons_append, List.nil_append] at hshape
    obtain ⟨hfirst, hshape⟩ := eq_of_append_hyphen hfirstA hfirstB hshape
    obtain ⟨hsecond, hshape⟩ := eq_of_append_hyphen hsecondA hsecondB hshape
    obtain ⟨hsequence, hshape⟩ := List.append_inj hshape (hlengthA.trans hlengthB.symm)
    obtain ⟨htiming, -⟩ := List.append_inj' (List.cons.inj hshape).2 rfl
    have hkind : kind = other := by
      rw [hsequence, hheadB] at hheadA
      exact (ProductMember.initial_inj (Option.some.inj hheadA)).symm
    subst hkind
    refine ⟨rfl, String.toList_inj.mp hresolution, String.toList_inj.mp hfirst, ?_,
      String.toList_inj.mp htiming⟩
    intro hsegment
    subst hsegment
    exact String.toList_inj.mp hsecond
  · intro hgiven
    obtain ⟨rfl, hresolution, hfirst, hsecond, htiming⟩ := hgiven
    have hsecond : Text.underscorePadded (a.identifierFor kind) 9 =
        Text.underscorePadded (b.identifierFor kind) 9 := by
      cases kind with
      | segment => exact hsecond rfl
      | prologue => rfl
      | epilogue => rfl
    have hpattern : a.filePattern kind = b.filePattern kind := by
      rw [filePattern, filePattern, hresolution, hfirst, hsecond, htiming]
    have hself : a.Finds kind (a.filePattern kind) :=
      (finds_iff ha).mpr (forall₂_allows_self _)
    refine ⟨a.filePattern kind, hself, ?_⟩
    rw [finds_iff hb, fileMarks, ← hpattern]
    exact (finds_iff ha).mp hself

/-- **The files of products keep apart.**  Two products have a segment in common just if they have the
same resolution, identifiers that are filled up to the same, and the same time; a prologue or an
epilogue, just if this is so but for the second identifier.  No file is found as one of two kinds,
be it for one product or for two. -/
theorem files_keep_apart (ha : a.check = .ok ()) (hb : b.check = .ok ()) :
    ((∃ file, a.Finds .segment file ∧ b.Finds .segment file) ↔
      a.resolution = b.resolution ∧
        Text.underscorePadded a.productId1 12 = Text.underscorePadded b.productId1 12 ∧
        Text.underscorePadded a.productId2 9 = Text.underscorePadded b.productId2 9 ∧
        a.timing = b.timing) ∧
    (∀ kind, kind ≠ .segment →
      ((∃ file, a.Finds kind file ∧ b.Finds kind file) ↔
        a.resolution = b.resolution ∧
          Text.underscorePadded a.productId1 12 = Text.underscorePadded b.productId1 12 ∧
          a.timing = b.timing)) ∧
    ∀ kind other file, kind ≠ other → a.Finds kind file → ¬b.Finds other file := by
  refine ⟨?_, fun kind hkind => ?_, fun kind other file hother hfindsA hfindsB => ?_⟩
  · rw [exists_common_file_iff ha hb, SharesFiles]
    simp only [true_and, forall_const]
  · rw [exists_common_file_iff ha hb, SharesFiles]
    simp only [hkind, false_implies, true_and]
  · exact hother ((exists_common_file_iff ha hb).mp ⟨file, hfindsA, hfindsB⟩).1

/-- A name with some identifiers. -/
def named (productId1 productId2 : String) : ProductName := ⟨"d", "H", productId1, productId2, "2006"⟩

/-- Identifiers with a letter of two bytes: the products have their prologue in common, for one of
the first identifiers is the other filled up by a byte, but no segment.  A second identifier that is
an underscore, as in the names of prologues, makes no segment of them. -/
theorem files_keep_apart_filled_up :
    (named "é" "_").check = .ok () ∧ (named "é_" "IR_108").check = .ok () ∧
      (∃ file, (named "é" "_").Finds .prologue file ∧ (named "é_" "IR_108").Finds .prologue file) ∧
      (¬∃ file, (named "é" "_").Finds .segment file ∧ (named "é_" "IR_108").Finds .segment file) ∧
      ∀ file, (named "é" "_").Finds .segment file → ¬(named "é_" "IR_108").Finds .prologue file := by
  have hshort : (named "é" "_").check = .ok () := rfl
  have hfilled : (named "é_" "IR_108").check = .ok () := rfl
  obtain ⟨hsegments, hothers, hkinds⟩ := files_keep_apart hshort hfilled
  refine ⟨hshort, hfilled, (hothers .prologue (by decide)).mpr (by decide), ?_,
    fun file => hkinds .segment .prologue file (by decide)⟩
  rw [hsegments]
  decide

end ProductName

end SeviriImagery
