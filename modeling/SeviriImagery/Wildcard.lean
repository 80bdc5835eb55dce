import SeviriImagery.Error

/-!
# Wildcards

A pattern is a text in which `?` stands for any character, `*` for any text, `[...]` for one of some
characters and `[!...]` for any other.  Two stars that make up a name of a path stand for
directories of any depth.  `parse` reads a pattern and says where it goes wrong; `isMatch` compares
a name with it.

`escape` turns a text into the pattern that matches this text and no other.
-/

namespace SeviriImagery.Wildcard

/-- A range of characters, both ends included. -/
structure CharRange where
  first : Char
  last : Char
deriving DecidableEq, Repr

/-- Whether a character lies in a range. -/
def CharRange.holds (r : CharRange) (c : Char) : Bool := r.first ≤ c && c ≤ r.last

/-- A piece of a pattern. -/
inductive Token where
  | literal (c : Char)
  | anyChar
  | anyText
  | oneOf (ranges : List CharRange)
  | noneOf (ranges : List CharRange)
  /-- Directories of any depth. -/
  | anyDepth
deriving DecidableEq, Repr

/-- The ranges between the brackets of a pattern: `a-z` is one, any other character is its own. -/
def charRanges : List Char → List CharRange
  | a :: '-' :: b :: rest => ⟨a, b⟩ :: charRanges rest
  | a :: rest => ⟨a, a⟩ :: charRanges rest
  | [] => []

/-- What stands before the first closing bracket, and what behind it. -/
def splitBracket (text : List Char) : Option (List Char × List Char) :=
  match text.dropWhile (· ≠ ']') with
  | _ :: rest => some (text.takeWhile (· ≠ ']'), rest)
  | [] => none

/-- The class of characters in front of a text that follows an opening bracket, and the rest of the
text.  The first character of a class belongs to it even if it is a closing bracket. -/
def bracket : List Char → Option (Token × List Char)
  | '!' :: c :: rest =>
      (splitBracket rest).map fun (others, behind) => (.noneOf (charRanges (c :: others)), behind)
  | ['!'] => none
  | c :: rest =>
      (splitBracket rest).map fun (others, behind) => (.oneOf (charRanges (c :: others)), behind)
  | [] => none

/-- Reads `fuel` tokens at most from a text at a position of a pattern, `before` being the
character in front of it. -/
def parseFrom : (fuel position : Nat) → (before : Option Char) → List Char →
    Except WildcardError (List Token)
  | 0, _, _, _ => .ok []
  | _, _, _, [] => .ok []
  | fuel + 1, position, _, '?' :: rest => do
      return .anyChar :: (← parseFrom fuel (position + 1) (some '?') rest)
  | fuel + 1, position, before, '*' :: rest =>
      let behind := rest.dropWhile (· = '*')
      let stars := 1 + (rest.length - behind.length)
      if stars = 1 then do
        return .anyText :: (← parseFrom fuel (position + 1) (some '*') rest)
      else if 2 < stars then .error ⟨position + 2, .tooManyStars⟩
      else if before ≠ none ∧ before ≠ some '/' then .error ⟨position - 1, .strayDoubleStar⟩
      else
        match behind with
        | [] => .ok [.anyDepth]
        | '/' :: next => do return .anyDepth :: (← parseFrom fuel (position + 3) (some '/') next)
        | _ => .error ⟨position + 2, .strayDoubleStar⟩
  | fuel + 1, position, _, '[' :: rest =>
      match bracket rest with
      | some (token, behind) => do
          return token :: (← parseFrom fuel (position + 1 + (rest.length - behind.length)) (some ']')
            behind)
      | none => .error ⟨position, .openRange⟩
  | fuel + 1, position, _, c :: rest => do
      return .literal c :: (← parseFrom fuel (position + 1) (some c) rest)

/-- The tokens of a pattern. -/
def parse (pattern : List Char) : Except WildcardError (List Token) :=
  parseFrom pattern.length 0 none pattern

/-- Whether a token that stands for one character stands for `c`. -/
def Token.holds : Token → Char → Bool
  | .literal d, c => c == d
  | .anyChar, _ => true
  | .oneOf ranges, c => ranges.any (·.holds c)
  | .noneOf ranges, c => !ranges.any (·.holds c)
  | .anyText, _ | .anyDepth, _ => false

/-- Whether `test` accepts a text or one of the ends of it. -/
def anyEnd (test : List Char → Bool) : List Char → Bool
  | [] => test []
  | c :: rest => test (c :: rest) || anyEnd test rest

/-- Whether a name is what a pattern stands for. -/
def isMatch : List Token → List Char → Bool
  | [], name => name.isEmpty
  | .anyText :: rest, name => anyEnd (isMatch rest) name
  | .anyDepth :: rest, name => anyEnd (isMatch rest) name
  | _ :: _, [] => false
  | token :: rest, c :: name => token.holds c && isMatch rest name

/-- The text of a pattern that stands for one text only. -/
def literalText? : List Token → Option (List Char)
  | [] => some []
  | .literal c :: rest => (literalText? rest).map (c :: ·)
  | _ => none

/-- The pattern that stands for `text` only. -/
def escape (text : String) : String :=
  String.ofList (text.toList.flatMap fun c =>
    if c = '?' ∨ c = '*' ∨ c = '[' ∨ c = ']' then ['[', c, ']'] else [c])

end SeviriImagery.Wildcard
