import SeviriImagery.Error
import SeviriImagery.Product.Stage

/-!
# Notes

Besides its result a computation leaves notes: that a file was passed over, that a segment was read,
how far the decoding has come.  A `Note` is kept by its cause.  It has a `severity`, by which a
reader chooses the notes to see, a `target`, which names the part of the program that it comes from,
and its words.
-/

namespace SeviriImagery

/-- How much a note matters. -/
inductive Severity where
  | error
  | warning
  | info
  | debug
  | trace
deriving DecidableEq, Repr

namespace Severity

/-- The place of a severity, the gravest first. -/
def rank : Severity → Nat
  | .error => 1
  | .warning => 2
  | .info => 3
  | .debug => 4
  | .trace => 5

/-- The mark of a severity in front of a note. -/
def mark : Severity → String
  | .error => "ERROR"
  | .warning => "WARN"
  | .info => "INFO"
  | .debug => "DEBUG"
  | .trace => "TRACE"

end Severity

/-- Something worth telling that is no result. -/
inductive Note where
  | severalEpilogues (files : Nat) (pattern used : String)
  | outsideSequence (path : String) (sequence total : Nat)
  | duplicateSequence (path : String) (sequence : Nat) (existing : String)
  | segmentFound (sequence : Nat) (path : String)
  | segmentsMissing (product : String) (sequences : List Nat)
  | segmentsFound (product : String) (present planned : Nat)
  | stageEntered (product : String) (before after : Stage)
  | attemptFailed (product : String) (error : Error)
  | areaDecoded (product : String) (columns lines loads : Nat)
  | plannedCoverage (product : String)
  | borrowedBands (satellite : Nat)
  | segmentRead (index : Nat)
  | fileWritten (path : String)
  | productWritten (product : String) (segments : Nat)
deriving DecidableEq

namespace Note

/-- How much a note matters. -/
def severity : Note → Severity
  | .severalEpilogues .. | .outsideSequence .. | .duplicateSequence .. | .segmentsMissing ..
  | .plannedCoverage .. | .borrowedBands .. => .warning
  | .segmentsFound .. | .areaDecoded .. | .productWritten .. => .info
  | .segmentFound .. | .stageEntered .. | .attemptFailed .. | .segmentRead .. | .fileWritten .. =>
      .debug

/-- The part of the program that a note comes from. -/
def target : Note → String
  | .severalEpilogues .. | .outsideSequence .. | .duplicateSequence .. | .segmentFound ..
  | .segmentsMissing .. | .segmentsFound .. => "xrit::locator"
  | .stageEntered .. | .attemptFailed .. | .areaDecoded .. | .plannedCoverage .. =>
      "xrit::assembler"
  | .borrowedBands .. => "xrit::prologue"
  | .segmentRead .. => "xrit::cache"
  | .fileWritten .. | .productWritten .. => "xrit::writer"

/-- The words of a note. -/
def message : Note → String
  | .severalEpilogues files pattern used =>
      toString files ++ " files match " ++ pattern ++ ", using " ++ used
  | .outsideSequence path sequence total =>
      path ++ ": sequence number " ++ toString sequence ++ " outside 1..=" ++ toString total ++
        ", ignored"
  | .duplicateSequence path sequence existing =>
      path ++ ": duplicate sequence number " ++ toString sequence ++ " (already found " ++
        existing ++ "), ignored"
  | .segmentFound sequence path => "segment " ++ toString sequence ++ ": " ++ path
  | .segmentsMissing product sequences =>
      product ++ ": missing segments [" ++ ", ".intercalate (sequences.map toString) ++ "]"
  | .segmentsFound product present planned =>
      product ++ ": " ++ toString present ++ " of " ++ toString planned ++ " segments found"
  | .stageEntered product before after =>
      product ++ ": " ++ before.text ++ " -> " ++ after.text
  | .attemptFailed product error => product ++ ": " ++ error.message
  | .areaDecoded product columns lines loads =>
      product ++ ": decoded " ++ toString columns ++ "x" ++ toString lines ++ " pixels, " ++
        toString loads ++ " segment loads"
  | .plannedCoverage product => product ++ ": no epilogue, using planned HRV coverage"
  | .borrowedBands satellite =>
      "no thermal coefficients for spacecraft " ++ toString satellite ++ ", using those of MSG-2"
  | .segmentRead index => "loading segment " ++ toString index
  | .fileWritten path => "wrote " ++ path
  | .productWritten product segments =>
      "wrote " ++ product ++ " (" ++ toString segments ++ " segments)"

end Note

/-- A result or an error, with the notes left on the way to it. -/
structure Noted (α : Type) where
  notes : List Note
  result : Except Error α

namespace Noted

/-- The notes of two computations in turn, and the result of the second; an error of the first
ends them. -/
def bind {α β : Type} (first : Noted α) (second : α → Noted β) : Noted β :=
  match first.result with
  | .ok a => ⟨first.notes ++ (second a).notes, (second a).result⟩
  | .error e => ⟨first.notes, .error e⟩

instance : Monad Noted where
  pure a := ⟨[], .ok a⟩
  bind := bind

/-- A result or an error without notes. -/
def lift {α : Type} (result : Except Error α) : Noted α := ⟨[], result⟩

instance : MonadLift (Except Error) Noted where
  monadLift := lift

/-- A note by itself. -/
def note (n : Note) : Noted Unit := ⟨[n], .ok ()⟩

/-- A note that is left under a condition. -/
def noteIf (condition : Bool) (n : Note) : Noted Unit := if condition then note n else pure ()

@[simp] theorem result_pure {α : Type} (a : α) : (pure a : Noted α).result = .ok a := rfl

@[simp] theorem result_lift {α : Type} (r : Except Error α) : (lift r).result = r := rfl

@[simp] theorem result_note (n : Note) : (note n).result = .ok () := rfl

@[simp] theorem result_noteIf (condition : Bool) (n : Note) :
    (noteIf condition n).result = .ok () := by
  cases condition <;> rfl

/-- Notes have no influence on results. -/
@[simp] theorem result_bind {α β : Type} (first : Noted α) (second : α → Noted β) :
    (first >>= second).result = (first.result >>= fun a => (second a).result) := by
  show (bind first second).result = _
  unfold bind
  split <;> simp_all [Bind.bind, Except.bind]

end Noted

end SeviriImagery
