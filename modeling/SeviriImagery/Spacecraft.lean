/-!
# Satellite numbers

The same satellite has one number in segment files and another in the common code table of the
meteorological world.  `codes` pairs the documented numbers; a number outside it maps to the
number for an unknown satellite on the other side.
-/

namespace SeviriImagery.Spacecraft

/-- The number of an unknown satellite in segment files. -/
def unknownInFiles : UInt16 := 0

/-- The number of an unknown satellite in the common code table. -/
def unknownInTable : UInt16 := 1023

/-- Numbers in segment files, each with the number in the common code table. -/
def codes : List (UInt16 × UInt16) := [(321, 55), (322, 56), (323, 57), (324, 70)]

/-- The table's number of a satellite, from the number in segment files. -/
def toTable (id : UInt16) : UInt16 :=
  match codes.find? (fun c => c.1 == id) with
  | some c => c.2
  | none => unknownInTable

/-- The number in segment files of a satellite, from the table's number. -/
def ofTable (id : UInt16) : UInt16 :=
  match codes.find? (fun c => c.2 == id) with
  | some c => c.1
  | none => unknownInFiles

/-- The name of a satellite, from the table's number. -/
def name (id : UInt16) : String :=
  if id = 55 then "Meteosat-8"
  else if id = 56 then "Meteosat-9"
  else if id = 57 then "Meteosat-10"
  else if id = 70 then "Meteosat-11"
  else "unknown"

/-- The satellite as it is named in file names, from the number in segment files. -/
def fileName (id : UInt16) : String :=
  if 321 ≤ id ∧ id ≤ 324 then "MSG" ++ toString (id - 320).toNat else "MSG"

end SeviriImagery.Spacecraft
