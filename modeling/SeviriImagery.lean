import SeviriImagery.Main
import SeviriImagery.Proofs.Calendar.Order
import SeviriImagery.Proofs.Calendar.TimeCode
import SeviriImagery.Proofs.Frame.Addressing
import SeviriImagery.Proofs.Frame.Lines
import SeviriImagery.Proofs.Header.Order
import SeviriImagery.Proofs.Header.Scan
import SeviriImagery.Proofs.Image.Cropping
import SeviriImagery.Proofs.Packing.Cursor
import SeviriImagery.Proofs.Product.Apart
import SeviriImagery.Proofs.Product.Area
import SeviriImagery.Proofs.Product.Calibrated
import SeviriImagery.Proofs.Product.Exported
import SeviriImagery.Proofs.Product.ExportedRadiometry
import SeviriImagery.Proofs.Product.Exporter
import SeviriImagery.Proofs.Product.History
import SeviriImagery.Proofs.Product.Loaded
import SeviriImagery.Proofs.Product.Mirrored
import SeviriImagery.Proofs.Product.NoData
import SeviriImagery.Proofs.Product.Offsets
import SeviriImagery.Proofs.Product.Pattern
import SeviriImagery.Proofs.Product.Repeated
import SeviriImagery.Proofs.Product.Spelling
import SeviriImagery.Proofs.Product.Stages
import SeviriImagery.Proofs.Product.Stored
import SeviriImagery.Proofs.Prologue.Fields
import SeviriImagery.Proofs.Segment.Cache
import SeviriImagery.Proofs.Segment.File
import SeviriImagery.Proofs.Segment.Stream
import SeviriImagery.Proofs.SpaceView.Exact
import SeviriImagery.Proofs.Wildcard.Letters
import SeviriImagery.Proofs.Word.Floating
