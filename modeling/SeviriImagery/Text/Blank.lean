/-!
# Blank characters

`isBlank` is the White_Space property of Unicode, wider than the four blanks that
`Char.isWhitespace` knows.  `trim` takes blanks off both ends of a text, `trimEndWhere` any chosen
characters off the right end.
-/

namespace SeviriImagery.Text

/-- The characters with the White_Space property of Unicode. -/
def isBlank (c : Char) : Bool :=
  let n := c.toNat
  (0x09 ≤ n && n ≤ 0x0D) || n == 0x20 || n == 0x85 || n == 0xA0 || n == 0x1680 ||
    (0x2000 ≤ n && n ≤ 0x200A) || n == 0x2028 || n == 0x2029 || n == 0x202F || n == 0x205F ||
    n == 0x3000

/-- `text` without the longest run of characters satisfying `drop` at its right end. -/
def trimEndWhere (drop : Char → Bool) (text : List Char) : List Char :=
  (text.reverse.dropWhile drop).reverse

/-- `text` without the blanks at both of its ends. -/
def trim (text : List Char) : List Char :=
  trimEndWhere isBlank (text.dropWhile isBlank)

end SeviriImagery.Text
