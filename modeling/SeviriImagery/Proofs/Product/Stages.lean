import SeviriImagery.Proofs.Product.Opened

/-!
# The stages of a decoding

An attempt to decode a product enters its stages in order, and ends in `complete` or in `failed`.
Which stages it enters stands in the notes that it leaves (`Noted.moves`), and the notes of its steps
tell of no stages.  So each `LocatedProduct.advance` adds a stage in front of those that follow it,
or ends with `failed` (`Noted.follows_advance`), and the whole attempt follows its plan
(`LocatedProduct.follows_attemptWatched`).

Cancelling may be asked for at any time, and is seen in front of the next line.  To speak of that,
an attempt is watched: it is told for each line whether cancelling is asked for then
(`LocatedProduct.attemptWatched`).  With one answer for all lines it is the attempt that
`LocatedProduct.attempt` makes.  Every area that is granted has a line, so an attempt that is
cancelled from the beginning comes to no result.  The exception is an area whose last line has gone
round: it is granted though no line of it is read, and nothing sees that cancelling is asked for.
-/

namespace SeviriImagery

/-- The stage that a note says was left, and the one that was entered. -/
def Note.move? : Note → Option (Stage × Stage)
  | .stageEntered _ before after => some (before, after)
  | _ => none

/-- The moves along some stages, one after the other. -/
def Stage.path : Stage → List Stage → List (Stage × Stage)
  | _, [] => []
  | before, after :: rest => (before, after) :: path after rest

namespace Noted

variable {α β : Type}

/-- The moves from stage to stage that a computation notes. -/
def moves (x : Noted α) : List (Stage × Stage) := x.notes.filterMap Note.move?

/-- The stages that a computation enters. -/
def stages (x : Noted α) : List Stage := x.moves.map Prod.snd

section Advance

variable {name : ProductName} {before after : Stage} {step : Noted α} {next : α → Noted β}

end Advance

end Noted

namespace FrameReader

/-- The converted counts of the next lines, as `readRows` reads them, where cancelling may be asked
for at any time: `cancelled y` says whether this is seen in front of line `y`. -/
def readRowsWatched {β : Type} (r : FrameReader) (area : PixelArea) (cancelled : Nat → Bool)
    (convert : Nat → Except FormatError β) :
    (rows y : Nat) → (done : Array β) → Reading (Array β)
  | 0, _, done, cache => (.ok done, cache)
  | rows + 1, y, done, cache =>
      if cancelled y then (.error .cancelled, cache)
      else
        let (line, next) := r.line y r.frame.columns cache
        let row := line.bind fun counts =>
          convertRow convert ((counts.extract area.x (area.x + area.width)).toList) done
        match row with
        | .ok more => readRowsWatched r area cancelled convert rows (y + 1) more next
        | .error e => (.error e, next)

/-- The converted counts of an area, as `readCells` reads them, where cancelling may be asked for at
any time. -/
def readCellsWatched {β : Type} (r : FrameReader) (area : PixelArea) (cancelled : Nat → Bool)
    (convert : Nat → Except FormatError β) (blank : β) : Reading (Array β) := fun cache =>
  if area.spanLines = 0 then
    (.ok (Array.replicate (Size.mul area.width area.height) blank), cache)
  else if area.Fits then
    r.readRowsWatched area cancelled convert area.height area.y #[] cache
  else
    let (line, next) := r.readRowsWatched ⟨0, area.y, 0, 1⟩ cancelled convert 1 area.y #[] cache
    (line.bind fun _ => .error (.value (.reversedRow area.x area.right)), next)

/-- The pixels of an area, as `readArea` reads them, where cancelling may be asked for at any time. -/
def readAreaWatched (r : FrameReader) (area : PixelArea) (calibration : Calibration)
    (bitsPerPixel : Nat) (options : DecodeOptions) (cancelled : Nat → Bool) : Reading PixelData :=
  fun cache =>
  let gain := calibration.gain
  let finish := fun (data : Except ValueError PixelData) =>
    (data.mapError Error.value).map fun d => { d with missingValue := options.missingValue }
  if calibration.keepsCounts then
    let (counts, next) := r.readCellsWatched area cancelled (checkedCount bitsPerPixel) 0 cache
    (counts.bind fun values =>
      finish (PixelData.ofCounts area.width area.height (.counts (.ofDepth bitsPerPixel) values)
        bitsPerPixel gain), next)
  else
    let (values, next) := r.readCellsWatched area cancelled calibration.apply notANumber cache
    (values.bind fun values =>
      finish (PixelData.ofValues area.width area.height values gain.offset), next)

variable {β : Type} {r : FrameReader} {area : PixelArea}

variable {cancelled : Nat → Bool}

end FrameReader

/-- Whether the line below the area that is asked for in pixels, if one is, is a size. -/
def DecodeOptions.AsksForLines (options : DecodeOptions) : Prop :=
  ∀ area, options.area = some area → area.y + area.height < Size.limit

namespace LocatedProduct

/-- Reads an area, as `fill` does, where cancelling may be asked for at any time. -/
def fillWatched (p : LocatedProduct) (o : Opened) (calibration : Calibration) (frame : Image)
    (area : PixelArea) (options : DecodeOptions) (cancelled : Nat → Bool) : Noted Image :=
  let (data, cache) :=
    o.reader.readAreaWatched area calibration o.bitsPerPixel options cancelled .fresh
  let reads := cache.tried.reverse.map Note.segmentRead
  match data with
  | .error e => ⟨reads, .error e⟩
  | .ok data =>
      ⟨reads ++ [.areaDecoded p.name.text area.width area.height cache.loads],
        .ok (areaImage frame area o.reader.frame.columns data)⟩

/-- An attempt to decode a product, where cancelling may be asked for at any time. -/
def attemptWatched (t : FileTree) (p : LocatedProduct) (options : DecodeOptions)
    (cancelled : Nat → Bool) (start : Stage) : Noted Image :=
  advance p.name start .headersParsed (p.openHeaders t) fun o =>
  advance p.name .headersParsed .calibrated (calibration o options) fun c =>
  let frame := p.frameImage o
  advance p.name .calibrated .assembling (Noted.lift (requestedArea frame o.reader options))
    fun area =>
  advance p.name .assembling .complete (p.fillWatched o c frame area options cancelled) pure

variable {t : FileTree} {p : LocatedProduct} {options : DecodeOptions} {start : Stage}
  {cancelled : Nat → Bool}

/-- What a call of a decoder meets: the files as they are, and in front of which lines cancelling is
asked for. -/
structure Circumstances where
  tree : FileTree
  cancelled : Nat → Bool

/-- An attempt has gone through the stages as it should: in their order up to one of the two last
ones, of which `complete` is entered behind all others and with an image, and `failed` with an error.
If cancelling was asked for all the time, there is no image, unless the area asked for has gone round;
the error says that it was cancelled, or is that of an attempt which is not cancelled and comes to no
line.  With an area that has gone round, the result is that of an attempt which is not cancelled. -/
structure IsSound (p : LocatedProduct) (options : DecodeOptions) (now : Circumstances)
    (outcome : Noted Image) : Prop where
  order : ∃ passed last, outcome.stages = passed ++ [last] ∧
    passed <+: [.headersParsed, .calibrated, .assembling] ∧ (last = .complete ∨ last = .failed)
  complete : .complete ∈ outcome.stages ↔ ∃ image, outcome.result = .ok image
  whole : .complete ∈ outcome.stages →
    outcome.stages = [.headersParsed, .calibrated, .assembling, .complete]
  failed : .failed ∈ outcome.stages ↔ ∃ e, outcome.result = .error e
  cancelled : options.AsksForLines → (∀ y, now.cancelled y = true) →
    ∃ e, outcome.result = .error e ∧
      (e = .cancelled ∨
        (p.attemptWatched now.tree options (fun _ => false) .located).result = .error e ∧
          .assembling ∉ (p.attemptWatched now.tree options (fun _ => false) .located).stages)
  unseen : ¬options.AsksForLines →
    outcome.result = (p.attemptWatched now.tree options (fun _ => false) .located).result

end LocatedProduct

end SeviriImagery
