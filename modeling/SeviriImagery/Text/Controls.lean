/-!
# Control sequences

A text that somebody else wrote may hold sequences that a terminal obeys instead of showing them.
`withoutControls` leaves out all of them and every lone control character but those of layout.

A sequence begins with the character ESC.  Most end with a letter; the strings that some introduce
end with the byte 9C or, if they are commands, with a bell.  ESC begins a sequence anew anywhere,
and the characters CAN and SUB end any.  A layout character inside a sequence is shown, and what
follows it is shown too, up to the next character that cannot be shown; there the sequence goes on.
-/

namespace SeviriImagery.Text

/-- Where the reading of control sequences stands. -/
inductive ControlState where
  /-- Between sequences. -/
  | ground
  /-- Behind the ESC that begins a sequence. -/
  | escape
  /-- In a sequence of ESC with further characters. -/
  | escapeIntermediate
  /-- In a sequence that brackets introduce, before its last letter. -/
  | bracketed
  /-- At the head of a string for the device. -/
  | deviceHead
  /-- In the parameters of a string for the device. -/
  | deviceParameters
  /-- Behind the parameters of a string for the device. -/
  | deviceIntermediate
  /-- In a string that the byte 9C ends. -/
  | controlString
  /-- In a command that a bell ends. -/
  | command
deriving DecidableEq, Repr

/-- The characters of layout: tab, line feed, form feed and carriage return. -/
def isLayout (c : Char) : Bool :=
  c == '\t' || c == '\n' || c == Char.ofNat 0x0C || c == '\r'

/-- Whether a character is shown between sequences. -/
def isShown (c : Char) : Bool :=
  isLayout c || (0x20 ≤ c.toNat && c.toNat != 0x7F)

/-- Whether a character can stand in the middle of a sequence, in front of its last. -/
def isIntermediate (c : Char) : Bool := 0x20 ≤ c.toNat && c.toNat ≤ 0x2F

/-- Whether a character separates parameters or is a digit of one. -/
def isParameter (c : Char) : Bool := 0x30 ≤ c.toNat && c.toNat ≤ 0x3B

/-- Whether a character can stand only in front of parameters. -/
def isPrivateMark (c : Char) : Bool := 0x3C ≤ c.toNat && c.toNat ≤ 0x3F

/-- Whether a character ends a bracketed sequence. -/
def isFinal (c : Char) : Bool := 0x40 ≤ c.toNat && c.toNat ≤ 0x7E

/-- Whether the byte 9C is one of those that encode a character. -/
def holdsStringEnd (c : Char) : Bool := (String.singleton c).toUTF8.toList.contains 0x9C

namespace ControlState

/-- What follows ESC and a character. -/
def afterEscape (c : Char) : ControlState :=
  if c = '[' then bracketed
  else if c = ']' then command
  else if c = 'P' then deviceHead
  else if c = 'X' ∨ c = '^' ∨ c = '_' then controlString
  else if isIntermediate c then escapeIntermediate
  else if 0x30 ≤ c.toNat ∧ c.toNat ≤ 0x7E then ground
  else escape

/-- What follows a state and a character that neither begins nor cancels a sequence. -/
def follow : ControlState → Char → ControlState
  | ground, _ => ground
  | escape, c => afterEscape c
  | escapeIntermediate, c => if isParameter c || isPrivateMark c || isFinal c then ground else escapeIntermediate
  | bracketed, c => if isFinal c then ground else bracketed
  | deviceHead, c =>
      if isFinal c then controlString
      else if isIntermediate c then deviceIntermediate
      else if isParameter c || isPrivateMark c then deviceParameters
      else deviceHead
  | deviceParameters, c =>
      if isFinal c || isPrivateMark c then controlString
      else if isIntermediate c then deviceIntermediate
      else deviceParameters
  | deviceIntermediate, c =>
      if isFinal c || isParameter c || isPrivateMark c then controlString else deviceIntermediate
  | controlString, c => if holdsStringEnd c then ground else controlString
  | command, c => if c.toNat = 0x07 then ground else command

/-- The state behind a character. -/
def next (s : ControlState) (c : Char) : ControlState :=
  if c.toNat = 0x1B then escape
  else if c.toNat = 0x18 ∨ c.toNat = 0x1A then ground
  else s.follow c

/-- Whether a character is shown in a state: any that can be between sequences, and those of layout
in sequences that are no strings. -/
def shows : ControlState → Char → Bool
  | ground, c => isShown c
  | escape, c | escapeIntermediate, c | bracketed, c => isLayout c
  | _, _ => false

/-- What is shown of a text from a state on; `free` says that characters have been shown up to
here. -/
def visible (s : ControlState) (free : Bool) : List Char → List Char
  | [] => []
  | c :: rest =>
      if free && isShown c then
        c :: visible (if c.toNat < 0x80 then s else ground) true rest
      else if s.shows c then c :: visible (s.next c) true rest
      else visible (s.next c) false rest

end ControlState

/-- A text without the control sequences in it. -/
def withoutControls (text : String) : String :=
  String.ofList (ControlState.ground.visible false text.toList)

end SeviriImagery.Text
