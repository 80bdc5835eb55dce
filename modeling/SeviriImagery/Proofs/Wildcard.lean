import Mathlib
import SeviriImagery.Proofs.Outcome
import SeviriImagery.Wildcard

/-!
# Patterns of single characters

The patterns by which files are searched ask for one character after the other: each is a certain
character, or any.  Such a pattern is a list of `Mark`s.  It is read as it was written
(`parse_marks`), and a name matches it if it has a character for each of its marks
(`isMatch_marks_iff`).  `IsWildcards` says what is relied on of wildcards, and nothing else about them
is used where the names of files are compared with patterns.

An escaped text is a pattern of certain characters.  It is a text to be looked up, and not
compared with others, exactly if none of its characters had to be escaped (`literalText?_marks`).
-/

namespace SeviriImagery.Wildcard

/-- What a pattern asks of a character: to be a certain one, or only to be there. -/
inductive Mark where
  | exactly (c : Char)
  | any

/-- Whether a character means something else than itself in a pattern. -/
def isSpecial (c : Char) : Bool := c == '?' || c == '*' || c == '[' || c == ']'

namespace Mark

/-- The text of a mark. -/
def text : Mark → List Char
  | exactly c => if isSpecial c then ['[', c, ']'] else [c]
  | any => ['?']

/-- The token of a mark. -/
def token : Mark → Token
  | exactly c => if isSpecial c then .oneOf [⟨c, c⟩] else .literal c
  | any => .anyChar

/-- Whether a character is what a mark asks for. -/
def Allows : Mark → Char → Prop
  | exactly d, c => c = d
  | any, _ => True

/-- The token of a mark stands for the characters that the mark allows. -/
theorem holds_token_iff (m : Mark) (c : Char) : m.token.holds c = true ↔ m.Allows c := by
  cases m with
  | any => simp [token, Token.holds, Allows]
  | exactly d =>
      rw [token]
      split
      · simp only [Token.holds, CharRange.holds, List.any_cons, List.any_nil, Bool.or_false,
          Bool.and_eq_true, decide_eq_true_eq, Allows]
        constructor
        · intro hgiven
          obtain ⟨hle, hge⟩ := hgiven
          exact Char.le_antisymm hge hle
        · intro hsame
          subst hsame
          exact ⟨Char.le_refl c, Char.le_refl c⟩
      · simp [Token.holds, Allows]

/-- A mark in front takes one character, if it holds of it. -/
theorem isMatch_token_cons (m : Mark) (tokens : List Token) (c : Char) (name : List Char) :
    isMatch (m.token :: tokens) (c :: name) = (m.token.holds c && isMatch tokens name) := by
  cases m with
  | any => rfl
  | exactly d =>
      rw [token]
      split <;> rfl

/-- A mark does not match nothing. -/
theorem isMatch_token_nil (m : Mark) (tokens : List Token) :
    isMatch (m.token :: tokens) [] = false := by
  cases m with
  | any => rfl
  | exactly d =>
      rw [token]
      split <;> rfl

end Mark

/-- A name matches marks if it has a character for each of them. -/
theorem isMatch_marks_iff {marks : List Mark} {name : List Char} :
    isMatch (marks.map Mark.token) name = true ↔ List.Forall₂ Mark.Allows marks name := by
  induction marks generalizing name with
  | nil => simp [isMatch]
  | cons m marks ih =>
      cases name with
      | nil => simp [Mark.isMatch_token_nil]
      | cons c name =>
          rw [List.map_cons, Mark.isMatch_token_cons, Bool.and_eq_true, Mark.holds_token_iff, ih,
            List.forall₂_cons]

/-- A character in brackets is read as itself. -/
theorem bracket_special {c : Char} (hc : isSpecial c) (rest : List Char) :
    bracket (c :: ']' :: rest) = some (.oneOf [⟨c, c⟩], rest) := by
  simp only [isSpecial, Bool.or_eq_true, beq_iff_eq] at hc
  rcases hc with ((rfl | rfl) | rfl) | rfl <;> rfl

/-- A mark at the front of a pattern is read. -/
theorem parseFrom_mark (m : Mark) (rest : List Char) (fuel position : Nat) (before : Option Char)
    {tokens : List Token}
    (hrest : ∀ position before, parseFrom fuel position before rest = .ok tokens) :
    parseFrom (fuel + 1) position before (m.text ++ rest) = .ok (m.token :: tokens) := by
  cases m with
  | any => simp [Mark.text, Mark.token, parseFrom, hrest]
  | exactly c =>
      rw [Mark.text, Mark.token]
      by_cases hc : isSpecial c
      · simp [hc, parseFrom, bracket_special hc, hrest]
      · have hplain : c ≠ '?' ∧ c ≠ '*' ∧ c ≠ '[' := by
          simp only [isSpecial, Bool.or_eq_true, beq_iff_eq] at hc
          grind
        simp [hc, parseFrom, hplain, hrest]

/-- Each mark is written with a character at least. -/
theorem Mark.length_text_pos (m : Mark) : 0 < m.text.length := by
  cases m with
  | any => exact Nat.one_pos
  | exactly c =>
      rw [Mark.text]
      split <;> simp

/-- A pattern of marks is read as it was written. -/
theorem parse_marks (marks : List Mark) :
    parse (marks.flatMap Mark.text) = .ok (marks.map Mark.token) := by
  have hread : ∀ fuel position before, (marks.flatMap Mark.text).length ≤ fuel →
      parseFrom fuel position before (marks.flatMap Mark.text) = .ok (marks.map Mark.token) := by
    induction marks with
    | nil =>
        intro fuel position before _
        cases fuel <;> rfl
    | cons m marks ih =>
        intro fuel position before hfuel
        rw [List.flatMap_cons, List.length_append] at hfuel
        have hpositive := m.length_text_pos
        obtain ⟨fuel, rfl⟩ : ∃ n, fuel = n + 1 := ⟨fuel - 1, by omega⟩
        rw [List.flatMap_cons, List.map_cons]
        exact parseFrom_mark m _ fuel position before fun p b => ih fuel p b (by omega)
  exact hread _ _ _ (Nat.le_refl _)

/-- Escaping a text writes a mark for each of its characters. -/
theorem toList_escape (text : String) :
    (escape text).toList = (text.toList.map Mark.exactly).flatMap Mark.text := by
  rw [escape, String.toList_ofList, List.flatMap_map]
  congr 1
  funext c
  simp only [Mark.text, isSpecial, Bool.or_eq_true, beq_iff_eq, or_assoc]

/-- What is relied on of wildcards: how a pattern is read and compared with a name, and how a text is
escaped. -/
structure IsWildcards (parse : List Char → Except WildcardError (List Token))
    (accepts : List Token → List Char → Bool) (escape : String → String) : Prop where
  /-- Marks one after the other are read one by one. -/
  read : ∀ marks : List Mark, parse (marks.flatMap Mark.text) = .ok (marks.map Mark.token)
  /-- A name is accepted if it has a character for each mark, one that the mark allows. -/
  accepts_iff : ∀ {marks : List Mark} {name : List Char},
    accepts (marks.map Mark.token) name = true ↔ List.Forall₂ Mark.Allows marks name
  /-- An escaped text asks for each of its characters. -/
  escaped : ∀ text,
    (escape text).toList = (text.toList.map Mark.exactly).flatMap Mark.text

/-- **Patterns are read, compared and escaped in this way.** -/
theorem isWildcards : IsWildcards parse isMatch escape :=
  ⟨parse_marks, isMatch_marks_iff, toList_escape⟩

/-- An escaped text is looked up if nothing in it had to be escaped. -/
theorem literalText?_marks (text : List Char) :
    literalText? ((text.map Mark.exactly).map Mark.token) =
      if text.any isSpecial then none else some text := by
  induction text with
  | nil => rfl
  | cons c text ih =>
      rw [List.map_cons, List.map_cons, Mark.token, List.any_cons]
      by_cases hc : isSpecial c
      · simp [hc, literalText?]
      · rw [if_neg hc, literalText?, ih]
        by_cases htext : text.any isSpecial <;> simp [hc, htext]

/-- What asks for each character of a text is the text. -/
theorem forall₂_exactly_iff {text name : List Char} :
    List.Forall₂ Mark.Allows (text.map Mark.exactly) name ↔ name = text := by
  rw [List.forall₂_map_left_iff]
  simp only [Mark.Allows]
  rw [← List.forall₂_eq_eq_eq]
  exact ⟨fun h => h.flip, fun h => h.flip⟩

/-- A name matches an escaped text if it is this text. -/
theorem isMatch_exactly_iff {text name : List Char} :
    isMatch ((text.map Mark.exactly).map Mark.token) name = true ↔ name = text := by
  rw [isWildcards.accepts_iff, forall₂_exactly_iff]

end SeviriImagery.Wildcard
