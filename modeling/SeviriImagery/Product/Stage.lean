/-!
# Stages of a decoding

A product that was found is decoded in stages.  It is `complete` or `failed` at the end of every
attempt, and a further attempt starts from there.
-/

namespace SeviriImagery

/-- How far the decoding of a product has come. -/
inductive Stage where
  | located
  | headersParsed
  | calibrated
  | assembling
  | complete
  | failed
deriving DecidableEq, Repr

/-- A stage in words. -/
def Stage.text : Stage → String
  | .located => "located"
  | .headersParsed => "headers parsed"
  | .calibrated => "calibrated"
  | .assembling => "assembling"
  | .complete => "complete"
  | .failed => "failed"

end SeviriImagery
