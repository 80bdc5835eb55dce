import SeviriImagery.Product.Name
import SeviriImagery.Proofs.FileTree.Search

/-!
# The names of a product's files

Each file of a product has a name, and each kind of file a pattern by which it is searched.  A
pattern asks for the characters of the names one by one, so it is a list of marks
(`ProductName.filePattern_eq`).  `ProductName.allows_memberName_iff` says that it finds the files of
its own kind and no others, and `ProductName.memberName_inj` that no two files have one name.

A pattern leaves six characters for the first product identifier in its short form, and the files
are found only if it fills them.  It does if it has no more than six characters, each of one byte;
the padding counts bytes.
-/

namespace SeviriImagery

open Wildcard

/-- A character of a pattern as a mark. -/
def Wildcard.Mark.ofChar (c : Char) : Mark := if c = '?' then .any else .exactly c

/-- A text of which no character means a set or a text of any length is a pattern of marks. -/
theorem Wildcard.flatMap_text_ofChar {text : List Char}
    (hplain : ∀ c ∈ text, c ≠ '*' ∧ c ≠ '[' ∧ c ≠ ']') :
    (text.map Mark.ofChar).flatMap Mark.text = text := by
  induction text with
  | nil => rfl
  | cons c text ih =>
      have hrest := ih fun d hd => hplain d (List.mem_cons_of_mem c hd)
      obtain ⟨hstar, hopen, hclose⟩ := hplain c List.mem_cons_self
      rw [List.map_cons, List.flatMap_cons, hrest, Mark.ofChar]
      by_cases hany : c = '?'
      · rw [if_pos hany, hany]
        rfl
      · have hspecial : isSpecial c = false := by simp [isSpecial, hany, hstar, hopen, hclose]
        rw [if_neg hany, Mark.text, if_neg (by simp [hspecial])]
        rfl

/-- A text is what it asks for. -/
theorem Wildcard.forall₂_allows_self (text : List Char) :
    List.Forall₂ Mark.Allows (text.map Mark.ofChar) text := by
  rw [List.forall₂_map_left_iff, List.forall₂_same]
  intro c _
  unfold Mark.ofChar
  split
  · trivial
  · exact rfl

/-- Question marks ask for as many characters. -/
theorem Wildcard.forall₂_allows_any {marks : List Mark} {text : List Char}
    (hany : ∀ m ∈ marks, m = .any) (hlength : marks.length = text.length) :
    List.Forall₂ Mark.Allows marks text := by
  rw [List.forall₂_iff_zip]
  refine ⟨hlength, fun hmem => ?_⟩
  rw [hany _ (List.of_mem_zip hmem).1]
  trivial

/-- Of two texts of marks that end alike the fronts are compared apart from the ends. -/
theorem Wildcard.forall₂_append_iff {front behind : List Mark} {a b : List Char}
    (hlength : behind.length = b.length) :
    List.Forall₂ Mark.Allows (front ++ behind) (a ++ b) ↔
      List.Forall₂ Mark.Allows front a ∧ List.Forall₂ Mark.Allows behind b := by
  constructor
  · intro hall
    have hfront : front.length = a.length := by
      have htotal := hall.length_eq
      rw [List.length_append, List.length_append] at htotal
      omega
    have htake := List.forall₂_take front.length hall
    have hdrop := List.forall₂_drop front.length hall
    rw [List.take_left, hfront, List.take_left] at htake
    rw [List.drop_left, hfront, List.drop_left] at hdrop
    exact ⟨htake, hdrop⟩
  · intro hgiven
    obtain ⟨hfront, hbehind⟩ := hgiven
    exact List.rel_append hfront hbehind

/-- A text of one-byte characters has as many bytes as characters. -/
theorem Text.utf8ByteSize_of_ascii {text : String} (hascii : ∀ c ∈ text.toList, c.utf8Size = 1) :
    text.utf8ByteSize = text.toList.length := by
  rw [← String.utf8Len_toList]
  generalize text.toList = chars at hascii
  induction chars with
  | nil => rfl
  | cons c rest ih =>
      rw [String.utf8Len_cons, ih fun d hd => hascii d (List.mem_cons_of_mem c hd),
        hascii c List.mem_cons_self, List.length_cons]

/-- Filling up adds the bytes that are missing. -/
theorem Text.utf8ByteSize_underscorePadded (text : String) (width : Nat) :
    (underscorePadded text width).utf8ByteSize = text.utf8ByteSize + (width - text.utf8ByteSize) := by
  have hfiller : ∀ n, String.utf8Len (List.replicate n '_') = n := by
    intro n
    induction n with
    | zero => rfl
    | succ n ih =>
        rw [List.replicate_succ, String.utf8Len_cons, ih]
        rfl
  rw [underscorePadded, filler, String.utf8ByteSize_append, String.utf8ByteSize_ofList, hfiller]

/-- The underscores stand behind the text, one for each byte that is missing. -/
theorem Text.toList_underscorePadded (text : String) (width : Nat) :
    (underscorePadded text width).toList =
      text.toList ++ List.replicate (width - text.utf8ByteSize) '_' := by
  rw [underscorePadded, filler, String.toList_append, String.toList_ofList]

/-- The zeros stand before the digits of a number. -/
theorem Text.toList_zeroPadded (n : Nat) :
    (zeroPadded 6 n).toList =
      List.replicate (6 - (Nat.toDigits 10 n).length) '0' ++ Nat.toDigits 10 n := by
  rw [zeroPadded, padLeft, filler, String.toList_append, String.toList_ofList,
    Nat.toString_eq_repr, Nat.toList_repr, ← String.length_toList, Nat.toList_repr]

/-- A number of five digits at most is given one zero before five digits. -/
theorem Text.toList_zeroPadded_of_lt {n : Nat} (hn : n < 10 ^ 5) :
    ∃ digits : List Char, (zeroPadded 6 n).toList = '0' :: digits ∧ digits.length = 5 ∧
      ∀ c ∈ digits, c.isDigit := by
  have hlength := (Nat.length_toDigits_le_iff (b := 10) (by decide) (by decide)).mpr hn
  refine ⟨List.replicate (5 - (Nat.toDigits 10 n).length) '0' ++ Nat.toDigits 10 n, ?_, ?_, ?_⟩
  · rw [toList_zeroPadded, Nat.succ_sub hlength, List.replicate_succ, List.cons_append]
  · rw [List.length_append, List.length_replicate]
    omega
  · intro c hc
    rcases List.mem_append.mp hc with hc | hc
    · rw [List.eq_of_mem_replicate hc]
      rfl
    · exact Nat.isDigit_of_mem_toDigits (by decide) (by decide) hc

/-- A number is told by its digits, whatever zeros stand before them. -/
theorem Text.zeroPadded_inj {a b : Nat} (hsame : zeroPadded 6 a = zeroPadded 6 b) : a = b := by
  have hvalue : ∀ n, Nat.ofDigitChars 10 (zeroPadded 6 n).toList 0 = n := by
    intro n
    rw [toList_zeroPadded, Nat.ofDigitChars_append, Nat.ofDigitChars_replicate_zero, Nat.mul_zero,
      Nat.ofDigitChars_ten_toDigits]
  rw [← hvalue a, hsame, hvalue b]

/-- A part passes if it is neither empty nor too long and has no forbidden character. -/
theorem NamePart.check_eq_ok_iff {part : NamePart} {value : String} :
    part.check value = .ok () ↔ value ≠ "" ∧ value.utf8ByteSize ≤ part.limit ∧
      ∀ c ∈ value.toList, isForbidden c = false := by
  unfold check
  by_cases hempty : value = ""
  · simp [hempty]
  · by_cases hlong : part.limit < value.utf8ByteSize
    · simp [hempty, hlong]
    · by_cases hforbidden : value.toList.any isForbidden
      · have hnot : ¬∀ c ∈ value.toList, isForbidden c = false := by
          simpa using hforbidden
        simp [hempty, hlong, hforbidden, hnot]
      · have hall : ∀ c ∈ value.toList, isForbidden c = false := by
          simpa using hforbidden
        simp only [String.isEmpty_iff, hempty, if_false, hlong, if_neg hforbidden, true_iff]
        exact ⟨hempty, Nat.not_lt.mp hlong, hall⟩

/-- A file of a product, by its place in it. -/
inductive ProductMember where
  | prologue
  | epilogue
  | segment (sequence : UInt16)
deriving DecidableEq

namespace ProductMember

/-- The kind of a file. -/
def kind : ProductMember → FileKind
  | prologue => .prologue
  | epilogue => .epilogue
  | segment _ => .segment

/-- What stands in a file's name for its place. -/
def sequenceText : ProductMember → String
  | prologue => ProductName.sequencePattern .prologue
  | epilogue => ProductName.sequencePattern .epilogue
  | segment sequence => Text.zeroPadded 6 sequence.toNat ++ "___"

/-- A segment's place in its name is a zero, five digits and three underscores. -/
theorem toList_sequenceText_segment (sequence : UInt16) :
    ∃ digits : List Char, (segment sequence).sequenceText.toList = '0' :: (digits ++ "___".toList) ∧
      digits.length = 5 ∧ ∀ c ∈ digits, c.isDigit := by
  have hlimit : sequence.toNat < 10 ^ 5 := Nat.lt_trans sequence.toNat_lt (by decide)
  obtain ⟨digits, hdigits, hlength, hall⟩ := Text.toList_zeroPadded_of_lt hlimit
  refine ⟨digits, ?_, hlength, hall⟩
  rw [sequenceText, String.toList_append, hdigits, List.cons_append]

/-- The characters for a file's place are capitals, digits and underscores. -/
theorem isPlain_of_mem_sequenceText {m : ProductMember} {c : Char}
    (hc : c ∈ m.sequenceText.toList) : c.isAlphanum ∨ c = '_' := by
  cases m with
  | prologue =>
      have hall : ∀ c ∈ prologue.sequenceText.toList, c.isAlphanum ∨ c = '_' := by
        simp [sequenceText, ProductName.sequencePattern]
      exact hall c hc
  | epilogue =>
      have hall : ∀ c ∈ epilogue.sequenceText.toList, c.isAlphanum ∨ c = '_' := by
        simp [sequenceText, ProductName.sequencePattern]
      exact hall c hc
  | segment sequence =>
      obtain ⟨digits, hdigits, -, hall⟩ := toList_sequenceText_segment sequence
      rw [hdigits, List.mem_cons, List.mem_append] at hc
      rcases hc with rfl | hc | hc
      · exact .inl (by decide)
      · refine .inl ?_
        rw [Char.isAlphanum, hall c hc, Bool.or_true]
      · have hfill : ∀ c ∈ "___".toList, c = '_' := by simp
        exact .inr (hfill c hc)

/-- The place of every file takes nine characters. -/
theorem length_sequenceText (m : ProductMember) : m.sequenceText.toList.length = 9 := by
  cases m with
  | prologue => rfl
  | epilogue => rfl
  | segment sequence =>
      obtain ⟨digits, hdigits, hlength, -⟩ := toList_sequenceText_segment sequence
      rw [hdigits, List.length_cons, List.length_append, hlength]
      rfl

/-- A character of the Latin alphabet, a digit or an underscore takes one byte. -/
theorem utf8Size_of_isPlain {c : Char} (hc : c.isAlphanum ∨ c = '_') : c.utf8Size = 1 := by
  rw [Char.utf8Size_eq_one_iff]
  rcases hc with hc | rfl
  · simp [Char.isAlphanum, Char.isAlpha, Char.isUpper, Char.isLower, Char.isDigit,
      UInt32.le_iff_toNat_le] at hc ⊢
    omega
  · decide

theorem utf8ByteSize_sequenceText (m : ProductMember) : m.sequenceText.utf8ByteSize = 9 := by
  rw [Text.utf8ByteSize_of_ascii fun c hc => utf8Size_of_isPlain (isPlain_of_mem_sequenceText hc),
    length_sequenceText]

/-- The character with which the place of a file of a kind begins. -/
def initial : FileKind → Char
  | .prologue => 'P'
  | .epilogue => 'E'
  | .segment => '0'

/-- The kinds of files are told apart by the first characters of their places. -/
theorem initial_inj {a b : FileKind} (hsame : initial a = initial b) : a = b := by
  cases a <;> cases b <;> first | rfl | (revert hsame; decide)

/-- The pattern of a kind asks for the places of this kind. -/
theorem allows_sequenceText_iff {m : ProductMember} {kind : FileKind} :
    List.Forall₂ Mark.Allows ((ProductName.sequencePattern kind).toList.map Mark.ofChar)
      m.sequenceText.toList ↔ m.kind = kind := by
  constructor
  · intro hall
    obtain ⟨rest, hrest⟩ : ∃ rest, m.sequenceText.toList = initial m.kind :: rest := by
      cases m with
      | prologue => exact ⟨_, rfl⟩
      | epilogue => exact ⟨_, rfl⟩
      | segment sequence =>
          obtain ⟨digits, hdigits, -, -⟩ := toList_sequenceText_segment sequence
          exact ⟨_, hdigits⟩
    obtain ⟨marks, hmarks⟩ : ∃ marks, (ProductName.sequencePattern kind).toList.map Mark.ofChar =
        .exactly (initial kind) :: marks := by
      cases kind <;> exact ⟨_, rfl⟩
    rw [hrest, hmarks, List.forall₂_cons] at hall
    exact initial_inj hall.1
  · intro hsame
    subst hsame
    cases m with
    | prologue => exact forall₂_allows_self _
    | epilogue => exact forall₂_allows_self _
    | segment sequence =>
        obtain ⟨digits, hdigits, hlength, -⟩ := toList_sequenceText_segment sequence
        have hpattern : (ProductName.sequencePattern .segment).toList.map Mark.ofChar =
            [.exactly '0'] ++ (List.replicate 5 .any ++ "___".toList.map Mark.ofChar) := rfl
        have hany : ∀ m ∈ List.replicate 5 Mark.any, m = .any := fun _ => List.eq_of_mem_replicate
        have hzero : List.Forall₂ Mark.Allows [.exactly '0'] ['0'] := .cons rfl .nil
        have hnumber : List.Forall₂ Mark.Allows (List.replicate 5 .any) digits :=
          forall₂_allows_any hany (by rw [List.length_replicate, hlength])
        rw [hdigits, kind, hpattern]
        exact List.rel_append hzero (List.rel_append hnumber (forall₂_allows_self _))

end ProductMember

namespace ProductName

/-- The name of a file of a product. -/
def memberName (n : ProductName) (m : ProductMember) : String := n.fileName m.kind m.sequenceText

theorem memberName_prologue (n : ProductName) : n.memberName .prologue = n.prologueName := rfl

theorem memberName_epilogue (n : ProductName) : n.memberName .epilogue = n.epilogueName := rfl

theorem memberName_segment (n : ProductName) (sequence : UInt16) :
    n.memberName (.segment sequence) = n.segmentName sequence.toNat := rfl

/-- The characters of the four parts of a name. -/
def partChars (n : ProductName) : List Char :=
  n.resolution.toList ++ (n.productId1.toList ++ (n.productId2.toList ++ n.timing.toList))

/-- The identifiers in the names of files of a kind, filled up, each with a hyphen behind it. -/
def identifiers (n : ProductName) (kind : FileKind) : List Char :=
  (Text.underscorePadded n.productId1 12).toList ++
    ('-' :: (Text.underscorePadded (n.identifierFor kind) 9).toList ++ ['-'])

/-- A pattern is the resolution and the identifiers, then the place, the time and the version. -/
theorem toList_filePattern (n : ProductName) (kind : FileKind) :
    (n.filePattern kind).toList = (n.resolution.toList ++ ("-???-??????-".toList ++
      n.identifiers kind)) ++ ((sequencePattern kind).toList ++
        ('-' :: n.timing.toList ++ "-?_".toList)) := by
  simp [filePattern, identifiers, String.toList_append]

/-- The name of a file is made up as the pattern for its kind is. -/
theorem toList_memberName (n : ProductName) (m : ProductMember) :
    (n.memberName m).toList = (n.resolution.toList ++ (("-000-".toList ++
      (Text.underscorePadded n.productId1 6).toList ++ ['-']) ++ n.identifiers m.kind)) ++
        (m.sequenceText.toList ++ ('-' :: n.timing.toList ++ "-C_".toList)) := by
  simp [memberName, fileName, identifiers, String.toList_append]

/-- The marks of the pattern for the names of files of a kind. -/
def fileMarks (n : ProductName) (kind : FileKind) : List Mark :=
  (n.filePattern kind).toList.map Mark.ofChar

/-- What the names of a product's files must satisfy to be written and found: the parts are parts
of a name, the first identifier has six characters of one byte at most, and the file system takes
the paths. -/
structure IsWritable (n : ProductName) : Prop where
  check : n.check = .ok ()
  ascii : ∀ c ∈ n.productId1.toList, c.utf8Size = 1
  short : n.productId1.toList.length ≤ 6
  path : FileTree.checkPath (Path.join n.directory (n.segmentName 1)) = .ok ()

variable {n : ProductName} {m : ProductMember} {kind : FileKind}

/-- A name is a proper one if each of its parts is. -/
theorem check_eq_ok_iff :
    n.check = .ok () ↔ NamePart.resolution.check n.resolution = .ok () ∧
      NamePart.productId1.check n.productId1 = .ok () ∧
        NamePart.productId2.check n.productId2 = .ok () ∧
          NamePart.timing.check n.timing = .ok () := by
  rw [check]
  constructor
  · intro hcheck
    obtain ⟨⟨⟩, hresolution, hcheck⟩ := Outcome.bind_eq_ok_iff.mp hcheck
    obtain ⟨⟨⟩, hproductId1, hcheck⟩ := Outcome.bind_eq_ok_iff.mp hcheck
    obtain ⟨⟨⟩, hproductId2, htiming⟩ := Outcome.bind_eq_ok_iff.mp hcheck
    exact ⟨hresolution, hproductId1, hproductId2, htiming⟩
  · intro hgiven
    obtain ⟨hresolution, hproductId1, hproductId2, htiming⟩ := hgiven
    rw [hresolution, hproductId1, hproductId2, htiming]
    rfl

/-- No character that is forbidden in a part of a name stands in one. -/
theorem isForbidden_of_mem_partChars (hcheck : n.check = .ok ()) {c : Char}
    (hc : c ∈ n.partChars) : NamePart.isForbidden c = false := by
  obtain ⟨hresolution, hproductId1, hproductId2, htiming⟩ := check_eq_ok_iff.mp hcheck
  simp only [partChars, List.mem_append] at hc
  rcases hc with hc | hc | hc | hc
  · exact (NamePart.check_eq_ok_iff.mp hresolution).2.2 c hc
  · exact (NamePart.check_eq_ok_iff.mp hproductId1).2.2 c hc
  · exact (NamePart.check_eq_ok_iff.mp hproductId2).2.2 c hc
  · exact (NamePart.check_eq_ok_iff.mp htiming).2.2 c hc

/-- The identifiers in a pattern are parts of the name, with underscores and hyphens. -/
theorem mem_identifiers {c : Char} (hc : c ∈ n.identifiers kind) :
    c ∈ n.partChars ∨ c = '_' ∨ c = '-' := by
  have hpadded : ∀ text width, c ∈ (Text.underscorePadded text width).toList →
      c ∈ text.toList ∨ c = '_' := by
    intro text width hmem
    rw [Text.toList_underscorePadded, List.mem_append] at hmem
    exact hmem.imp_right List.eq_of_mem_replicate
  have hidentifier : c ∈ (n.identifierFor kind).toList → c ∈ n.productId2.toList ∨ c = '_' := by
    have hfill : ∀ c ∈ "_".toList, c = '_' := by simp
    intro hmem
    cases kind with
    | segment => exact .inl hmem
    | prologue => exact .inr (hfill c hmem)
    | epilogue => exact .inr (hfill c hmem)
  simp only [identifiers, List.mem_append, List.mem_cons, List.not_mem_nil, or_false] at hc
  simp only [partChars, List.mem_append]
  rcases hc with hc | (hc | hc) | hc
  · rcases hpadded _ _ hc with hc | hc
    · exact .inl (.inr (.inl hc))
    · exact .inr (.inl hc)
  · exact .inr (.inr hc)
  · rcases hpadded _ _ hc with hc | hc
    · rcases hidentifier hc with hc | hc
      · exact .inl (.inr (.inr (.inl hc)))
      · exact .inr (.inl hc)
    · exact .inr (.inl hc)
  · exact .inr (.inr hc)

/-- The characters of a file's name: those of the parts, and some that no part of a path is made
of. -/
theorem mem_memberName {c : Char} (hc : c ∈ (n.memberName m).toList) :
    c ∈ n.partChars ∨ c.isAlphanum ∨ c = '_' ∨ c = '-' := by
  have hzeros : ∀ c ∈ "-000-".toList, c.isAlphanum ∨ c = '_' ∨ c = '-' := by simp
  have hversion : ∀ c ∈ "-C_".toList, c.isAlphanum ∨ c = '_' ∨ c = '-' := by simp
  rw [toList_memberName] at hc
  simp only [List.mem_append, List.mem_cons, List.not_mem_nil, or_false] at hc
  rcases hc with (hc | ((hc | hc) | hc) | hc) | hc | (hc | hc) | hc
  · exact .inl (by simp [partChars, hc])
  · exact .inr (hzeros c hc)
  · rw [Text.toList_underscorePadded, List.mem_append] at hc
    rcases hc with hc | hc
    · exact .inl (by simp [partChars, hc])
    · exact .inr (.inr (.inl (List.eq_of_mem_replicate hc)))
  · exact .inr (.inr (.inr hc))
  · exact (mem_identifiers hc).imp_right .inr
  · exact .inr ((ProductMember.isPlain_of_mem_sequenceText hc).imp_right .inl)
  · exact .inr (.inr (.inr hc))
  · exact .inl (by simp [partChars, hc])
  · exact .inr (hversion c hc)

/-- The characters of a pattern: those of the parts, and some that mean no more than one
character. -/
theorem mem_filePattern {c : Char} (hc : c ∈ (n.filePattern kind).toList) :
    c ∈ n.partChars ∨ c ≠ '/' ∧ c ≠ '*' ∧ c ≠ '[' ∧ c ≠ ']' := by
  have hquestions : ∀ c ∈ "-???-??????-".toList, c ≠ '/' ∧ c ≠ '*' ∧ c ≠ '[' ∧ c ≠ ']' := by simp
  have hversion : ∀ c ∈ "-?_".toList, c ≠ '/' ∧ c ≠ '*' ∧ c ≠ '[' ∧ c ≠ ']' := by simp
  have hsequence : ∀ kind, ∀ c ∈ (sequencePattern kind).toList,
      c ≠ '/' ∧ c ≠ '*' ∧ c ≠ '[' ∧ c ≠ ']' := by
    intro kind
    cases kind <;> simp [sequencePattern]
  rw [toList_filePattern] at hc
  simp only [List.mem_append, List.mem_cons] at hc
  rcases hc with (hc | hc | hc) | hc | (hc | hc) | hc
  · exact .inl (by simp [partChars, hc])
  · exact .inr (hquestions c hc)
  · rcases mem_identifiers hc with hc | rfl | rfl
    · exact .inl hc
    · exact .inr (by decide)
    · exact .inr (by decide)
  · exact .inr (hsequence kind c hc)
  · rw [hc]
    exact .inr (by decide)
  · exact .inl (by simp [partChars, hc])
  · exact .inr (hversion c hc)

/-- A pattern has no slash and nothing that means more than one character. -/
theorem filePattern_clean (hcheck : n.check = .ok ()) {c : Char}
    (hc : c ∈ (n.filePattern kind).toList) : c ≠ '/' ∧ c ≠ '*' ∧ c ≠ '[' ∧ c ≠ ']' := by
  rcases mem_filePattern hc with hpart | hclean
  · have hforbidden := isForbidden_of_mem_partChars hcheck hpart
    simp only [NamePart.isForbidden, Bool.or_eq_false_iff, beq_eq_false_iff_ne] at hforbidden
    obtain ⟨⟨⟨⟨⟨hslash, hstar⟩, -⟩, hopen⟩, hclose⟩, -⟩ := hforbidden
    exact ⟨hslash, hstar, hopen, hclose⟩
  · exact hclean

/-- A pattern is what its marks say. -/
theorem filePattern_eq (hcheck : n.check = .ok ()) :
    n.filePattern kind = String.ofList ((n.fileMarks kind).flatMap Mark.text) := by
  rw [fileMarks, flatMap_text_ofChar fun c hc => (filePattern_clean hcheck hc).2,
    String.ofList_toList]

/-- A proper name leaves no slash in the pattern. -/
theorem slash_not_mem_fileMarks (hcheck : n.check = .ok ()) :
    '/' ∉ (n.fileMarks kind).flatMap Mark.text := by
  rw [fileMarks, flatMap_text_ofChar fun c hc => (filePattern_clean hcheck hc).2]
  intro hslash
  exact (filePattern_clean hcheck hslash).1 rfl

/-- A pattern has a question mark. -/
theorem any_mem_fileMarks (n : ProductName) (kind : FileKind) : Mark.any ∈ n.fileMarks kind := by
  refine List.mem_map.mpr ⟨'?', ?_, rfl⟩
  rw [toList_filePattern]
  simp

theorem two_lt_length_fileMarks (n : ProductName) (kind : FileKind) :
    2 < (n.fileMarks kind).length := by
  rw [fileMarks, List.length_map, toList_filePattern]
  simp only [List.length_append, List.length_cons]
  have hquestions : "-???-??????-".toList.length = 12 := rfl
  omega

/-- **A pattern finds the files of its kind**, and no other files of the product; but it finds none
unless the first identifier fills the six characters that the pattern leaves for its short form. -/
theorem allows_memberName_iff (n : ProductName) (m : ProductMember) (kind : FileKind) :
    List.Forall₂ Mark.Allows (n.fileMarks kind) (n.memberName m).toList ↔
      (Text.underscorePadded n.productId1 6).toList.length = 6 ∧ m.kind = kind := by
  have hend : List.Forall₂ Mark.Allows (('-' :: n.timing.toList ++ "-?_".toList).map Mark.ofChar)
      ('-' :: n.timing.toList ++ "-C_".toList) := by
    have hversion : "-?_".toList.map Mark.ofChar = [.exactly '-', .any, .exactly '_'] := rfl
    have hletters : "-C_".toList = ['-', 'C', '_'] := by decide
    rw [List.map_append, hversion, hletters]
    exact List.rel_append (forall₂_allows_self _) (.cons rfl (.cons trivial (.cons rfl .nil)))
  have hplace : ((sequencePattern kind).toList.map Mark.ofChar).length =
      m.sequenceText.toList.length := by
    rw [ProductMember.length_sequenceText]
    cases kind <;> rfl
  have hsplit : ((sequencePattern kind).toList ++
      ('-' :: n.timing.toList ++ "-?_".toList)).map Mark.ofChar =
        (sequencePattern kind).toList.map Mark.ofChar ++
          ('-' :: n.timing.toList ++ "-?_".toList).map Mark.ofChar := List.map_append
  have hzeros : "-000-".toList = ['-', '0', '0', '0', '-'] := by decide
  rw [fileMarks, toList_filePattern, toList_memberName, List.map_append, hsplit,
    forall₂_append_iff, forall₂_append_iff hend.length_eq, ProductMember.allows_sequenceText_iff]
  · constructor
    · intro hall
      obtain ⟨hfront, hsame, -⟩ := hall
      subst hsame
      have hlength := hfront.length_eq
      have hquestions : "-???-??????-".toList.length = 12 := rfl
      simp only [List.length_map, List.length_append, hquestions, hzeros, List.length_cons,
        List.length_nil] at hlength
      exact ⟨by omega, rfl⟩
    · intro hgiven
      obtain ⟨hshort, rfl⟩ := hgiven
      refine ⟨?_, rfl, hend⟩
      have hquestions : "-???-??????-".toList.map Mark.ofChar =
          ([.exactly '-', .any, .any, .any, .exactly '-'] ++ List.replicate 6 .any) ++
            [.exactly '-'] := rfl
      have hany : ∀ m ∈ List.replicate 6 Mark.any, m = .any := fun _ => List.eq_of_mem_replicate
      have hnumber : List.Forall₂ Mark.Allows [.exactly '-', .any, .any, .any, .exactly '-']
          "-000-".toList := by
        rw [hzeros]
        exact .cons rfl (.cons trivial (.cons trivial (.cons trivial (.cons rfl .nil))))
      have hhyphen : List.Forall₂ Mark.Allows [.exactly '-'] ['-'] := .cons rfl .nil
      have hidentifier : List.Forall₂ Mark.Allows (List.replicate 6 .any)
          (Text.underscorePadded n.productId1 6).toList :=
        forall₂_allows_any hany (by rw [List.length_replicate, hshort])
      rw [List.map_append, List.map_append, hquestions]
      exact List.rel_append (forall₂_allows_self _) (List.rel_append
        (List.rel_append (List.rel_append hnumber hidentifier) hhyphen) (forall₂_allows_self _))
  · rw [List.length_append, List.length_append, hplace, hend.length_eq]

/-- The short form of the first identifier of such a name has six characters. -/
theorem IsWritable.length_short (hname : n.IsWritable) :
    (Text.underscorePadded n.productId1 6).toList.length = 6 := by
  have hshort := hname.short
  rw [Text.toList_underscorePadded, List.length_append, List.length_replicate,
    Text.utf8ByteSize_of_ascii hname.ascii]
  omega

/-- The files of a product that can be written and found are found by the patterns of their
kinds. -/
theorem allows_memberName (hname : n.IsWritable) (m : ProductMember) (kind : FileKind) :
    List.Forall₂ Mark.Allows (n.fileMarks kind) (n.memberName m).toList ↔ m.kind = kind := by
  rw [allows_memberName_iff, and_iff_right hname.length_short]

/-- **No two files of a product have one name.** -/
theorem memberName_inj (hname : n.IsWritable) {a b : ProductMember}
    (hsame : n.memberName a = n.memberName b) : a = b := by
  have hmatch : ∀ m : ProductMember,
      List.Forall₂ Mark.Allows (n.fileMarks b.kind) (n.memberName m).toList ↔ m.kind = b.kind :=
    fun m => allows_memberName hname m b.kind
  have hkind : a.kind = b.kind := by
    rw [← hmatch, hsame, hmatch]
  have hchars : (n.memberName a).toList = (n.memberName b).toList := by rw [hsame]
  rw [toList_memberName, toList_memberName, hkind] at hchars
  have hplace := List.append_cancel_right (List.append_cancel_left hchars)
  rw [String.toList_inj] at hplace
  cases a with
  | prologue => cases b <;> first | rfl | cases hkind
  | epilogue => cases b <;> first | rfl | cases hkind
  | segment i =>
      cases b with
      | prologue => cases hkind
      | epilogue => cases hkind
      | segment j =>
          rw [ProductMember.sequenceText, ProductMember.sequenceText, ← String.toList_inj,
            String.toList_append, String.toList_append] at hplace
          have hnumber := List.append_cancel_right hplace
          rw [String.toList_inj] at hnumber
          rw [UInt16.toNat_inj.mp (Text.zeroPadded_inj hnumber)]

/-- The bytes of the name of any file of a product. -/
def memberSize (n : ProductName) : Nat :=
  n.resolution.utf8ByteSize + (Text.underscorePadded n.productId1 6).utf8ByteSize +
    n.timing.utf8ByteSize + 42

/-- All files of a product have names of one size. -/
theorem utf8ByteSize_memberName (hcheck : n.check = .ok ()) (m : ProductMember) :
    (n.memberName m).utf8ByteSize = n.memberSize := by
  obtain ⟨-, hproductId1, hproductId2, -⟩ := check_eq_ok_iff.mp hcheck
  have hfirst := (NamePart.check_eq_ok_iff.mp hproductId1).2.1
  have hsecond : (n.identifierFor m.kind).utf8ByteSize ≤ 9 := by
    cases m with
    | prologue => exact (by decide : ("_" : String).utf8ByteSize ≤ 9)
    | epilogue => exact (by decide : ("_" : String).utf8ByteSize ≤ 9)
    | segment sequence => exact (NamePart.check_eq_ok_iff.mp hproductId2).2.1
  have hnumber : "-000-".utf8ByteSize = 5 := by decide
  have hhyphen : "-".utf8ByteSize = 1 := by decide
  have hversion : "-C_".utf8ByteSize = 3 := by decide
  simp only [NamePart.limit] at hfirst
  simp only [memberName, fileName, memberSize, String.utf8ByteSize_append, hnumber, hhyphen,
    hversion, ProductMember.utf8ByteSize_sequenceText, Text.utf8ByteSize_underscorePadded]
  omega

/-- The names of the files of a product are short enough for a file system. -/
theorem memberSize_le (hcheck : n.check = .ok ()) : n.memberSize ≤ 67 := by
  obtain ⟨hresolution, hproductId1, -, htiming⟩ := check_eq_ok_iff.mp hcheck
  have hfirst := (NamePart.check_eq_ok_iff.mp hresolution).2.1
  have hsecond := (NamePart.check_eq_ok_iff.mp hproductId1).2.1
  have hlast := (NamePart.check_eq_ok_iff.mp htiming).2.1
  simp only [NamePart.limit] at hfirst hsecond hlast
  rw [memberSize, Text.utf8ByteSize_underscorePadded]
  omega

/-- The name of a file of a product can be that of a file. -/
theorem isPlainName_memberName (hcheck : n.check = .ok ()) (m : ProductMember) :
    FileTree.IsPlainName (n.memberName m) := by
  have hsize := utf8ByteSize_memberName hcheck m
  have hlong : 42 ≤ n.memberSize := by
    rw [memberSize]
    omega
  have hother : ∀ text : String, text.utf8ByteSize ≤ 2 → n.memberName m ≠ text := by
    intro text htext hsame
    subst hsame
    omega
  refine ⟨hother "" (by decide), hother "." (by decide), hother ".." (by decide), ?_, ?_⟩
  · intro hslash
    rcases mem_memberName hslash with hpart | hplain
    · have hforbidden := isForbidden_of_mem_partChars hcheck hpart
      revert hforbidden
      decide
    · revert hplain
      decide
  · have hlimit := memberSize_le hcheck
    rw [hsize, FileTree.nameLimit]
    omega

/-- No file of such a product has a NUL in its name. -/
theorem IsWritable.nul_not_mem_memberName (hname : n.IsWritable) (m : ProductMember) :
    Char.ofNat 0 ∉ (n.memberName m).toList := by
  obtain ⟨hclean, -, -⟩ := FileTree.checkPath_eq_ok_iff.mp hname.path
  have hslash := (isPlainName_memberName hname.check (.segment 1)).no_slash
  intro hnul
  rcases mem_memberName hnul with hpart | hplain
  · refine hclean (Path.mem_join hslash (.inr ?_))
    show _ ∈ (n.memberName (.segment 1)).toList
    simp only [partChars, List.mem_append] at hpart
    rw [toList_memberName, identifiers, Text.toList_underscorePadded n.productId1 12,
      Text.toList_underscorePadded _ 9, ProductMember.kind, identifierFor]
    rcases hpart with hpart | hpart | hpart | hpart <;> simp [hpart]
  · revert hplain
    decide

/-- The path of a file of a product is a path if that of another one is. -/
theorem checkPath_memberName_of (hcheck : n.check = .ok ()) {known m : ProductMember}
    (hknown : FileTree.checkPath (Path.join n.directory (n.memberName known)) = .ok ())
    (hclear : Char.ofNat 0 ∉ (n.memberName m).toList) :
    FileTree.checkPath (Path.join n.directory (n.memberName m)) = .ok () := by
  obtain ⟨hclean, -, hlimit⟩ := FileTree.checkPath_eq_ok_iff.mp hknown
  have hslash : ∀ m, '/' ∉ (n.memberName m).toList :=
    fun m => (isPlainName_memberName hcheck m).no_slash
  have hsize : ∀ m, (Path.join n.directory (n.memberName m)).utf8ByteSize + 1 =
      Path.namesSize (Path.folders n.directory) + (n.memberSize + 1) +
        if Path.isAbsolute n.directory then 1 else 0 := by
    intro m
    have hnames := Path.namesSize_names (Path.join n.directory (n.memberName m))
    rw [Path.names_join _ (hslash m), Path.isAbsolute_join _ (hslash m)] at hnames
    rw [← hnames, ← utf8ByteSize_memberName hcheck m]
    simp [Path.namesSize]
  have hone := hsize known
  have hother := hsize m
  rw [FileTree.checkPath_eq_ok_iff]
  refine ⟨?_, ?_, by omega⟩
  · intro hnul
    rcases Path.mem_of_mem_join hnul with hnul | hnul | hnul
    · exact hclean (Path.mem_join (hslash known) (.inl hnul))
    · exact absurd hnul (by decide)
    · exact hclear hnul
  · intro hempty
    have hzero : "".utf8ByteSize = 0 := by decide
    have hnone := hsize m
    rw [hempty, hzero, memberSize] at hnone
    omega

/-- The paths of all files of a product are paths if that of one segment is. -/
theorem IsWritable.checkPath_memberName (hname : n.IsWritable) (m : ProductMember) :
    FileTree.checkPath (Path.join n.directory (n.memberName m)) = .ok () :=
  @checkPath_memberName_of n hname.check (.segment 1) m hname.path (hname.nul_not_mem_memberName m)

end ProductName

end SeviriImagery
