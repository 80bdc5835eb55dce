import SeviriImagery.Prologue
import SeviriImagery.Proofs.Calendar
import SeviriImagery.Proofs.Outcome
import SeviriImagery.Proofs.Word

/-!
# Prologues written and read

The data field of a prologue is a long row of zeros with a few fields at their places.  Fields
that keep clear of each other are found where they were laid (`drop_layFields`), and so a prologue
that was written is read back: the same satellite, longitude, coverage and gains, each word bit by
bit, and the time that the written code stands for (`Prologue.ofDataField_of_toDataField`).  The
radiometric processing takes over the satellite of the prologue.
-/

namespace SeviriImagery

/-- Fields that keep clear of each other and of the end of a data field, the first of them not
before `position`. -/
def FieldsFit (length : Nat) : (position : Nat) → List (Nat × List UInt8) → Prop
  | position, [] => position ≤ length
  | position, (start, field) :: rest =>
      position ≤ start ∧ FieldsFit length (start + field.length) rest

/-- Fields that fit do not begin behind the end. -/
theorem FieldsFit.le {length position : Nat} {fields : List (Nat × List UInt8)}
    (hfit : FieldsFit length position fields) : position ≤ length := by
  induction fields generalizing position with
  | nil => exact hfit
  | cons first rest ih =>
      have hrest := ih hfit.2
      have hfirst := hfit.1
      omega

/-- A data field with fields laid into it is as long as it should be. -/
theorem length_layFields {length position : Nat} {fields : List (Nat × List UInt8)}
    (hfit : FieldsFit length position fields) :
    (layFields length position fields).length = length - position := by
  induction fields generalizing position with
  | nil => simp [layFields]
  | cons first rest ih =>
      obtain ⟨start, field⟩ := first
      obtain ⟨hstart, hrest⟩ := hfit
      have hroom := hrest.le
      simp only [layFields, List.length_append, List.length_replicate, ih hrest]
      omega

/-- A field is found at its place. -/
theorem drop_layFields {length position start : Nat} {field : List UInt8}
    {fields : List (Nat × List UInt8)} (hfit : FieldsFit length position fields)
    (hmem : (start, field) ∈ fields) :
    position ≤ start ∧ ∃ rest, (layFields length position fields).drop (start - position) =
      field ++ rest := by
  induction fields generalizing position with
  | nil => cases hmem
  | cons first others ih =>
      obtain ⟨first, content⟩ := first
      obtain ⟨hfirst, hothers⟩ := hfit
      have hgap : (List.replicate (first - position) (0 : UInt8)).length = first - position :=
        List.length_replicate
      rcases List.mem_cons.mp hmem with hsame | hmem
      · cases hsame
        exact ⟨hfirst, _, by rw [layFields, List.drop_left' hgap]⟩
      · obtain ⟨hstart, rest, hrest⟩ := ih hothers hmem
        refine ⟨by omega, rest, ?_⟩
        have hsplit : start - position =
            first - position + (content.length + (start - (first + content.length))) := by omega
        rw [layFields, hsplit, ← List.drop_drop, List.drop_left' hgap, ← List.drop_drop,
          List.drop_left, hrest]

/-- A coverage is read where it was written. -/
theorem Coverage.ofField_of_drop {buffer : List UInt8} {start : Nat} {c : Coverage}
    (rest : List UInt8) (hdrop : buffer.drop start = c.bytes ++ rest) :
    Coverage.ofField buffer start = c := by
  have hlength : c.bytes.length = Coverage.length := rfl
  have hfield : (buffer.drop start).take Coverage.length = c.bytes := by
    rw [hdrop, List.take_left' hlength]
  have hword : ∀ (k : Nat) (w : Int32) (behind : List UInt8),
      c.bytes.drop k = Word.bytesSigned32 w ++ behind → Word.int32 c.bytes k = w := by
    intro k w behind hk
    exact Word.int32_of_drop behind hk
  unfold Coverage.ofField
  simp only [hfield]
  rw [hword 0 c.lowerSouthLine _ rfl, hword 4 c.lowerNorthLine _ rfl,
    hword 8 c.lowerEastColumn _ rfl, hword 12 c.lowerWestColumn _ rfl,
    hword 16 c.upperSouthLine _ rfl, hword 20 c.upperNorthLine _ rfl,
    hword 24 c.upperEastColumn _ rfl, hword 28 c.upperWestColumn [] rfl]

/-- A gain is read where it was written. -/
theorem Gain.ofField_of_drop {buffer : List UInt8} {start : Nat} {g : Gain} (rest : List UInt8)
    (hdrop : buffer.drop start = g.bytes ++ rest) : Gain.ofField buffer start = g := by
  have hslope : Word.uint64 buffer start = g.slope.bits := by
    refine Word.uint64_of_drop (g.offset.bytes ++ rest) ?_
    rw [hdrop, Gain.bytes, List.append_assoc]
    rfl
  have hoffset : Word.uint64 buffer (start + 8) = g.offset.bits := by
    refine Word.uint64_of_drop rest ?_
    rw [← List.drop_drop, hdrop]
    rfl
  rw [Gain.ofField, Double.ofField, Double.ofField, hslope, hoffset]

theorem Gain.length_bytes (g : Gain) : g.bytes.length = Prologue.gainLength := rfl

/-- Gains stand one behind the other. -/
theorem Gain.drop_flatMap_bytes {gains : List Gain} {i : Nat} (hi : i < gains.length)
    (rest : List UInt8) :
    ∃ behind, (gains.flatMap Gain.bytes ++ rest).drop (i * Prologue.gainLength) =
      gains[i].bytes ++ behind := by
  induction gains generalizing i with
  | nil => cases hi
  | cons g gains ih =>
      cases i with
      | zero =>
          exact ⟨gains.flatMap Gain.bytes ++ rest, by simp⟩
      | succ i =>
          obtain ⟨behind, hbehind⟩ := ih (Nat.lt_of_succ_lt_succ hi)
          refine ⟨behind, ?_⟩
          rw [Nat.succ_mul, Nat.add_comm, ← List.drop_drop, List.flatMap_cons, List.append_assoc,
            List.drop_left' (Gain.length_bytes g), hbehind]
          rfl

/-- Gains are written one behind the other, each with the same length. -/
theorem Gain.length_flatMap_bytes (gains : List Gain) :
    (gains.flatMap Gain.bytes).length = gains.length * Prologue.gainLength := by
  induction gains with
  | nil => simp
  | cons g gains ih =>
      rw [List.flatMap_cons, List.length_append, ih, Gain.length_bytes, List.length_cons,
        Nat.succ_mul, Nat.add_comm]

namespace Prologue

/-- The fields of a prologue at their places. -/
def fields (p : Prologue) (code : DayCode) : List (Nat × List UInt8) := [
  (satelliteAt, Word.bytes16 p.satellite),
  (cycleStartAt, Word.toBytes 2 code.days ++ Word.toBytes 4 code.millis),
  (longitudeAt, p.longitude.bytes),
  (plannedCoverageAt, p.plannedCoverage.bytes),
  (gainsAt, p.radiometry.gains.toList.flatMap Gain.bytes)]

/-- The fields of a prologue keep clear of each other. -/
theorem fieldsFit (p : Prologue) (code : DayCode) : FieldsFit length 0 (p.fields code) := by
  have hcode : (Word.toBytes 2 code.days ++ Word.toBytes 4 code.millis).length = 6 := by
    rw [List.length_append, Word.length_toBytes, Word.length_toBytes]
  have hsatellite : (Word.bytes16 p.satellite).length = 2 := rfl
  have hlongitude : p.longitude.bytes.length = 4 := rfl
  have hcoverage : p.plannedCoverage.bytes.length = 32 := rfl
  have hgains : (p.radiometry.gains.toList.flatMap Gain.bytes).length = 192 := by
    rw [Gain.length_flatMap_bytes, Vector.length_toList]
    rfl
  simp only [FieldsFit, fields, hsatellite, hcode, hlongitude, hcoverage, hgains]
  simp only [satelliteAt, cycleStartAt, longitudeAt, plannedCoverageAt, gainsAt, length, gainLength]
  omega

/-- **A prologue that was written is read back**, but for its time, which is the time of the code
that was written. -/
theorem ofDataField_of_toDataField {p : Prologue} {data : List UInt8}
    (hdata : p.toDataField = .ok data) :
    data.length = length ∧ ∃ code read, p.acquired.toCode = .ok code ∧
      UtcTime.ofCode code = .ok read ∧ Prologue.ofDataField data = .ok { p with
        acquired := read
        radiometry := ⟨p.satellite, p.radiometry.gains⟩ } := by
  obtain ⟨code, hcode, hlaid⟩ := Outcome.bind_eq_ok_iff.mp hdata
  have hfit := p.fieldsFit code
  have hlaid : layFields length 0 (p.fields code) = data := Except.ok.inj hlaid
  have hlength : data.length = length := by rw [← hlaid, length_layFields hfit, Nat.sub_zero]
  have hplace : ∀ start field, (start, field) ∈ p.fields code →
      ∃ rest, data.drop start = field ++ rest := by
    intro start field hmem
    rw [← hlaid]
    exact (drop_layFields hfit hmem).2
  obtain ⟨hdays, hmillis, read, hread⟩ := UtcTime.exists_ofCode_of_toCode hcode
  refine ⟨hlength, code, read, hcode, hread, ?_⟩
  obtain ⟨behindSatellite, hsatellite⟩ := hplace satelliteAt (Word.bytes16 p.satellite)
    (by simp [fields])
  obtain ⟨behindCode, hstart⟩ := hplace cycleStartAt
    (Word.toBytes 2 code.days ++ Word.toBytes 4 code.millis) (by simp [fields])
  obtain ⟨behindLongitude, hlongitude⟩ := hplace longitudeAt p.longitude.bytes (by simp [fields])
  obtain ⟨behindCoverage, hcoverage⟩ := hplace plannedCoverageAt p.plannedCoverage.bytes
    (by simp [fields])
  obtain ⟨behindGains, hgains⟩ := hplace gainsAt (p.radiometry.gains.toList.flatMap Gain.bytes)
    (by simp [fields])
  have hdaysRead : Word.field data cycleStartAt 2 = code.days := by
    have hfield := Word.field_of_drop (hstart.trans (List.append_assoc _ _ _))
    rwa [Word.length_toBytes, Word.ofBytes_toBytes, Nat.mod_eq_of_lt hdays] at hfield
  have hmillisRead : Word.field data (cycleStartAt + 2) 4 = code.millis := by
    have hbehind : data.drop (cycleStartAt + 2) = Word.toBytes 4 code.millis ++ behindCode := by
      rw [← List.drop_drop, hstart, List.append_assoc,
        List.drop_left' (Word.length_toBytes 2 code.days)]
    have hfield := Word.field_of_drop hbehind
    rwa [Word.length_toBytes, Word.ofBytes_toBytes, Nat.mod_eq_of_lt hmillis] at hfield
  have hlongitudeRead : Single.ofField data longitudeAt = p.longitude := by
    rw [Single.ofField, Word.uint32_of_drop behindLongitude hlongitude]
  have hgainsRead : (Vector.ofFn fun i : Fin 12 =>
      Gain.ofField (data.drop gainsAt) (i * gainLength)) = p.radiometry.gains := by
    ext i hi
    have hcount : i < p.radiometry.gains.toList.length := by simpa using hi
    obtain ⟨behind, hgain⟩ := Gain.drop_flatMap_bytes hcount behindGains
    rw [Vector.getElem_ofFn, hgains, Gain.ofField_of_drop behind hgain]
    rfl
  have hcodeRead : (⟨Word.field data cycleStartAt 2, Word.field data (cycleStartAt + 2) 4⟩ :
      DayCode) = code := by
    rw [hdaysRead, hmillisRead]
  rw [Prologue.ofDataField, if_neg (by omega)]
  simp only [hcodeRead, hread, Word.uint16_of_drop behindSatellite hsatellite, hlongitudeRead,
    Coverage.ofField_of_drop behindCoverage hcoverage, hgainsRead]
  rfl

/-- The prologue of a time from 1958 on is read back with this time. -/
theorem ofDataField_of_toDataField_since_epoch {p : Prologue} {data : List UInt8}
    (hyear : epochYear ≤ p.acquired.year) (hdata : p.toDataField = .ok data) :
    Prologue.ofDataField data =
      .ok { p with radiometry := ⟨p.satellite, p.radiometry.gains⟩ } := by
  obtain ⟨-, code, read, hcode, hread, hback⟩ := ofDataField_of_toDataField hdata
  rw [UtcTime.ofCode_of_toCode hyear hcode] at hread
  cases hread
  exact hback

end Prologue

end SeviriImagery
