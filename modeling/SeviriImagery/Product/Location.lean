import SeviriImagery.FileTree.Search
import SeviriImagery.Note
import SeviriImagery.Product.Name
import SeviriImagery.Segment.File

/-!
# Finding the files of a product

A product has one prologue, perhaps an epilogue, and segments.  Every segment says in its header
which number it has and how many are planned.  `FileTree.locate` finds the files of a product by
their names and puts each segment in the slot of its number; of several segments with one number the
first in the order of paths counts, and a number that is not planned has no slot.
-/

namespace SeviriImagery

/-- The files of a product. -/
structure LocatedProduct where
  name : ProductName
  prologue : String
  epilogue : Option String
  /-- The file of each segment planned, if there is one. -/
  segments : List (Option String)
  /-- The header records of the first segment that is there. -/
  firstHeader : SegmentHeader
  /-- A header plans with a word of 16 bits. -/
  planned : segments.length < UInt16.size
deriving DecidableEq

namespace LocatedProduct

/-- The segments planned. -/
def plannedCount (p : LocatedProduct) : Nat := p.segments.length

/-- The segments that are there. -/
def presentCount (p : LocatedProduct) : Nat := (p.segments.filter Option.isSome).length

/-- The numbers of the segments that are not there. -/
def missing (p : LocatedProduct) : List Nat :=
  (p.segments.zipIdx 1).filterMap fun s => if s.1.isNone then some s.2 else none

/-- The path of the first segment that is there. -/
def firstPath (p : LocatedProduct) : String := (p.segments.filterMap id).headD ""

end LocatedProduct

/-- A file that may be a segment, and what its header says about its place. -/
structure SegmentCandidate where
  path : String
  header : SegmentHeader
  sequence : Nat
  /-- The number of the last segment planned. -/
  plannedEnd : Nat
  /-- It is a word of 16 bits. -/
  planned : plannedEnd < UInt16.size

namespace SegmentCandidate

/-- The candidate in a file. -/
def ofFile (t : FileTree) (path : String) : Except Error SegmentCandidate := do
  let header ← t.readHeader path
  let id ← inFile path (header.requireIdentification.mapError .parse)
  return ⟨path, header, id.sequence.toNat, id.plannedEnd.toNat, id.plannedEnd.toNat_lt⟩

/-- Candidates in the order of their numbers; of equal numbers, the earlier one first. -/
def sort (candidates : List SegmentCandidate) : List SegmentCandidate :=
  candidates.mergeSort fun a b => a.sequence ≤ b.sequence

/-- The number of slots that the candidates ask for. -/
def slotCount (candidates : List SegmentCandidate) : Nat :=
  candidates.foldl (fun n c => max n c.plannedEnd) 0

/-- The slots with a candidate put in its own, if it has one that is free. -/
def place (slots : List (Option SegmentCandidate)) (c : SegmentCandidate) :
    List (Option SegmentCandidate) × Note :=
  if c.sequence = 0 then (slots, .outsideSequence c.path c.sequence slots.length)
  else
    match slots[c.sequence - 1]? with
    | none => (slots, .outsideSequence c.path c.sequence slots.length)
    | some (some existing) => (slots, .duplicateSequence c.path c.sequence existing.path)
    | some none => (slots.set (c.sequence - 1) (some c), .segmentFound c.sequence c.path)

/-- The slots with each of the candidates put in its own, one after the other. -/
def placeAll : List SegmentCandidate → List (Option SegmentCandidate) →
    List Note × List (Option SegmentCandidate)
  | [], slots => ([], slots)
  | c :: rest, slots =>
      let (next, note) := place slots c
      let (notes, filled) := placeAll rest next
      (note :: notes, filled)

/-- Fewer slots are asked for than there are words of 16 bits. -/
theorem slotCount_lt (candidates : List SegmentCandidate) : slotCount candidates < UInt16.size := by
  have hfold (n : Nat) (hn : n < UInt16.size) :
      candidates.foldl (fun n c => max n c.plannedEnd) n < UInt16.size := by
    induction candidates generalizing n with
    | nil => exact hn
    | cons c rest ih => exact ih _ (Nat.max_lt.mpr ⟨hn, c.planned⟩)
  exact hfold 0 (by decide)

/-- Placing a candidate makes no slot more or less. -/
theorem length_place (slots : List (Option SegmentCandidate)) (c : SegmentCandidate) :
    (place slots c).1.length = slots.length := by
  unfold place
  split
  · rfl
  · split <;> simp

/-- Candidates are put into the slots that there are. -/
theorem length_placeAll (candidates : List SegmentCandidate)
    (slots : List (Option SegmentCandidate)) :
    (placeAll candidates slots).2.length = slots.length := by
  induction candidates generalizing slots with
  | nil => rfl
  | cons c rest ih => exact (ih _).trans (length_place slots c)

/-- The slots of all candidates, each with the first that belongs there, and what is noted of the
others. -/
def settle (candidates : List SegmentCandidate) : List Note × List (Option SegmentCandidate) :=
  placeAll (sort candidates) (List.replicate (slotCount candidates) none)

/-- As many slots are settled as are asked for. -/
theorem length_settle (candidates : List SegmentCandidate) :
    (settle candidates).2.length = slotCount candidates := by
  rw [settle, length_placeAll, List.length_replicate]

end SegmentCandidate

/-- The product that some slots make up; there must be a segment in one of them. -/
def LocatedProduct.ofSlots (name : ProductName) (prologue : String) (epilogue : Option String)
    (slots : List (Option SegmentCandidate)) (planned : slots.length < UInt16.size) :
    Except Error LocatedProduct :=
  match slots.filterMap id with
  | [] => .error (.locate (.noSuchSegments (name.pattern .segment)))
  | first :: _ =>
      .ok ⟨name, prologue, epilogue, slots.map (·.map (·.path)), first.header,
        (List.length_map _).symm ▸ planned⟩

namespace FileTree

/-- The paths of a product's files of one kind, in their order. -/
def productFiles (t : FileTree) (name : ProductName) (kind : FileKind) :
    Except Error (List String) :=
  (t.search (name.pattern kind)).mapError fun e => .locate (.badPattern (name.pattern kind) e)

/-- The prologue of a product, of which there must be one only. -/
def locatePrologue (t : FileTree) (name : ProductName) : Except Error String := do
  match ← t.productFiles name .prologue with
  | [] => throw (.locate (.noSuchFile (name.pattern .prologue)))
  | [path] => return path
  | paths => throw (.locate (.ambiguousPrologue (name.pattern .prologue) paths.length))

/-- The epilogue of a product, the first one if there are several. -/
def locateEpilogue (t : FileTree) (name : ProductName) : Noted (Option String) := do
  let paths ← (t.productFiles name .epilogue : Except Error (List String))
  Noted.noteIf (1 < paths.length)
    (.severalEpilogues paths.length (name.pattern .epilogue) (paths.headD ""))
  return paths.head?

/-- The candidates for the segments of a product. -/
def segmentCandidates (t : FileTree) (name : ProductName) :
    Except Error (List SegmentCandidate) := do
  let paths ← t.productFiles name .segment
  if paths.isEmpty then throw (.locate (.noSuchSegments (name.pattern .segment)))
  paths.mapM (SegmentCandidate.ofFile t)

/-- The files of a product. -/
def locate (t : FileTree) (name : ProductName) : Noted LocatedProduct := do
  let prologue ← (t.locatePrologue name : Except Error String)
  let epilogue ← t.locateEpilogue name
  let candidates ← (t.segmentCandidates name : Except Error (List SegmentCandidate))
  Noted.mk (SegmentCandidate.settle candidates).1 (.ok ())
  let product ← (LocatedProduct.ofSlots name prologue epilogue (SegmentCandidate.settle candidates).2
    (SegmentCandidate.length_settle candidates ▸ SegmentCandidate.slotCount_lt candidates) :
      Except Error LocatedProduct)
  Noted.noteIf (!product.missing.isEmpty) (.segmentsMissing name.text product.missing)
  Noted.note (.segmentsFound name.text product.presentCount product.plannedCount)
  return product

end FileTree

end SeviriImagery
