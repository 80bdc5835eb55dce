/-!
# Padded text

Identifiers in file names are filled up with underscores, calendar fields with zeros, and columns
of a listing with blanks.  Widths of identifiers count bytes, as the file names are laid out in
bytes; the other widths count characters.

`padLeft` and `underscorePadded` never shorten a text.
-/

namespace SeviriImagery.Text

/-- As many copies of `c` as a text of `length` lacks to reach `width`. -/
def filler (c : Char) (width length : Nat) : String :=
  String.ofList (List.replicate (width - length) c)

/-- `text` set to the right of a column of `width` characters filled with `c`. -/
def padLeft (c : Char) (width : Nat) (text : String) : String :=
  filler c width text.length ++ text

/-- `text` set to the left of a column of `width` characters filled with `c`. -/
def padRight (c : Char) (width : Nat) (text : String) : String :=
  text ++ filler c width text.length

/-- A number written with at least `width` digits. -/
def zeroPadded (width n : Nat) : String :=
  padLeft '0' width (toString n)

/-- An identifier filled up with underscores to `width` bytes. -/
def underscorePadded (text : String) (width : Nat) : String :=
  text ++ filler '_' width text.utf8ByteSize

end SeviriImagery.Text
