import SeviriImagery.Word

/-!
# Coverage of the high-resolution channel

The high-resolution channel sees a narrower strip than its frame is wide, in two half images that
may be shifted against each other.  A `Coverage` bounds them, in lines and columns counted from one
at the south-east corner of the frame.
-/

namespace SeviriImagery

/-- The bounds of the two half images. -/
structure Coverage where
  lowerSouthLine : Int32
  lowerNorthLine : Int32
  lowerEastColumn : Int32
  lowerWestColumn : Int32
  upperSouthLine : Int32
  upperNorthLine : Int32
  upperEastColumn : Int32
  upperWestColumn : Int32
deriving DecidableEq, Repr, Inhabited

namespace Coverage

/-- The bytes that a coverage takes in a data field. -/
def length : Nat := 32

/-- The coverage with all bounds zero. -/
def zero : Coverage := ⟨0, 0, 0, 0, 0, 0, 0, 0⟩

/-- The coverage at `start` of a data field. -/
def ofField (buffer : List UInt8) (start : Nat) : Coverage :=
  let field := (buffer.drop start).take length
  ⟨Word.int32 field 0, Word.int32 field 4, Word.int32 field 8, Word.int32 field 12,
    Word.int32 field 16, Word.int32 field 20, Word.int32 field 24, Word.int32 field 28⟩

/-- The bounds in the order in which they are written. -/
def toList (c : Coverage) : List Int32 :=
  [c.lowerSouthLine, c.lowerNorthLine, c.lowerEastColumn, c.lowerWestColumn,
    c.upperSouthLine, c.upperNorthLine, c.upperEastColumn, c.upperWestColumn]

/-- The bytes of a coverage. -/
def bytes (c : Coverage) : List UInt8 := c.toList.flatMap Word.bytesSigned32

end Coverage

end SeviriImagery
