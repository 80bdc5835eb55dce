import SeviriImagery.Proofs.Calendar.TimeCode
import SeviriImagery.Proofs.Prologue

/-!
# What is read of a data field

Of the long data fields of a prologue and an epilogue only a few fields are read.  Their places are
listed here (`Prologue.fieldPlaces`, `Epilogue.fieldPlaces`), and what is read depends on the bytes
at these places alone: two data fields of sufficient length that have the same fields are read alike
(`Prologue.ofDataField_congr`).

So a prologue comes back from its data field with anything behind it, and with anything between its
fields: `DataField.fields_read_back`.
-/

namespace SeviriImagery

/-- Two buffers have the same bytes in a field, which is given by its place and its length. -/
def SameField (a b : List UInt8) (field : Nat × Nat) : Prop :=
  (a.drop field.1).take field.2 = (b.drop field.1).take field.2

/-- A byte belongs to one of some fields. -/
def InFields (fields : List (Nat × Nat)) (i : Nat) : Prop :=
  ∃ field ∈ fields, field.1 ≤ i ∧ i < field.1 + field.2

instance (fields : List (Nat × Nat)) (i : Nat) : Decidable (InFields fields i) :=
  inferInstanceAs (Decidable (∃ field ∈ fields, _))

/-- Two buffers have the same bytes in some fields, whatever they have elsewhere. -/
def AgreeIn (fields : List (Nat × Nat)) (a b : List UInt8) : Prop :=
  a.length = b.length ∧ ∀ i, InFields fields i → a[i]? = b[i]?

variable {a b : List UInt8} {fields : List (Nat × Nat)}

/-- Buffers that agree in some fields have the same fields. -/
theorem AgreeIn.sameField (hagree : AgreeIn fields a b) {field : Nat × Nat} (hfield : field ∈ fields) :
    SameField a b field := by
  refine List.ext_getElem? fun k => ?_
  rw [List.getElem?_take, List.getElem?_take]
  split
  · rw [List.getElem?_drop, List.getElem?_drop]
    exact hagree.2 _ ⟨field, hfield, by omega, by omega⟩
  · rfl

/-- What stands behind a field does not change it. -/
theorem sameField_append {field : Nat × Nat} (hin : field.1 + field.2 ≤ a.length)
    (rest : List UInt8) : SameField (a ++ rest) a field := by
  have hlength : field.2 ≤ (a.drop field.1).length := by
    rw [List.length_drop]
    omega
  rw [SameField, List.drop_append_of_le_length (by omega), List.take_append_of_le_length hlength]

/-- A byte that belongs to none of the fields can be changed. -/
theorem agreeIn_set {i : Nat} (hi : ¬InFields fields i) (byte : UInt8) :
    AgreeIn fields (a.set i byte) a := by
  refine ⟨List.length_set, fun k hk => List.getElem?_set_ne ?_⟩
  intro hsame
  exact hi (hsame ▸ hk)

/-- A word inside a field is read from the field. -/
theorem SameField.word {start length : Nat} (hsame : SameField a b (start, length)) {k width : Nat}
    (hin : k + width ≤ length) : Word.field a (start + k) width = Word.field b (start + k) width := by
  have hpart : ∀ buffer : List UInt8, (buffer.drop (start + k)).take width =
      (((buffer.drop start).take length).drop k).take width := by
    intro buffer
    rw [List.drop_take, List.take_take, List.drop_drop, Nat.min_eq_left (by omega)]
  have hsame : (a.drop start).take length = (b.drop start).take length := hsame
  rw [Word.field, Word.field, hpart a, hpart b, hsame]

namespace Prologue

/-- The fields of a prologue: the satellite, the time code, the longitude, the coverage and the
gains. -/
def fieldPlaces : List (Nat × Nat) := [
  (satelliteAt, 2),
  (cycleStartAt, 6),
  (longitudeAt, 4),
  (plannedCoverageAt, Coverage.length),
  (gainsAt, 12 * gainLength)]

/-- The fields lie in any data field of sufficient length. -/
theorem le_length_of_mem_fieldPlaces {field : Nat × Nat} (hfield : field ∈ fieldPlaces) :
    field.1 + field.2 ≤ length := by
  revert field
  decide

/-- A gain is read from the field of the gains. -/
theorem gain_congr (hsame : SameField a b (gainsAt, 12 * gainLength)) (i : Fin 12) :
    Gain.ofField (a.drop gainsAt) (i * gainLength) =
      Gain.ofField (b.drop gainsAt) (i * gainLength) := by
  have hword : ∀ k, k + 8 ≤ 12 * gainLength →
      Word.uint64 (a.drop gainsAt) k = Word.uint64 (b.drop gainsAt) k := by
    intro k hk
    have hfield := hsame.word hk
    rw [Word.field, Word.field, ← List.drop_drop, ← List.drop_drop] at hfield
    exact congrArg UInt64.ofNat hfield
  have hlast : i * gainLength + gainLength ≤ 12 * gainLength := by
    rw [← Nat.succ_mul]
    exact Nat.mul_le_mul_right _ i.isLt
  have hwidth : gainLength = 16 := rfl
  rw [Gain.ofField, Gain.ofField, Double.ofField, Double.ofField, Double.ofField, Double.ofField,
    hword _ (by omega), hword _ (by omega)]

/-- **What is read of a prologue depends on its fields alone.** -/
theorem ofDataField_congr (ha : length ≤ a.length) (hb : length ≤ b.length)
    (hsame : ∀ field ∈ fieldPlaces, SameField a b field) : ofDataField a = ofDataField b := by
  simp only [fieldPlaces, List.forall_mem_cons] at hsame
  obtain ⟨hsatellite, hcode, hlongitude, hcoverage, hgains, -⟩ := hsame
  have hsatellite : Word.uint16 a satelliteAt = Word.uint16 b satelliteAt :=
    congrArg UInt16.ofNat (hsatellite.word (k := 0) (Nat.le_refl 2))
  have hdays : Word.field a cycleStartAt 2 = Word.field b cycleStartAt 2 :=
    hcode.word (k := 0) (by decide)
  have hmillis : Word.field a (cycleStartAt + 2) 4 = Word.field b (cycleStartAt + 2) 4 :=
    hcode.word (by decide)
  have hlongitude : Single.ofField a longitudeAt = Single.ofField b longitudeAt :=
    congrArg (fun n => Single.mk (UInt32.ofNat n)) (hlongitude.word (k := 0) (Nat.le_refl 4))
  have hcoverage : Coverage.ofField a plannedCoverageAt = Coverage.ofField b plannedCoverageAt := by
    have hsame : (a.drop plannedCoverageAt).take Coverage.length =
        (b.drop plannedCoverageAt).take Coverage.length := hcoverage
    rw [Coverage.ofField, Coverage.ofField, hsame]
  rw [ofDataField, ofDataField, if_neg (Nat.not_lt.mpr ha), if_neg (Nat.not_lt.mpr hb)]
  simp only [hsatellite, hdays, hmillis, hlongitude, hcoverage, gain_congr hgains]

/-- A data field that is read has the length for it. -/
theorem length_le_of_ofDataField {p : Prologue} (hread : ofDataField a = .ok p) :
    length ≤ a.length := by
  unfold ofDataField at hread
  obtain ⟨hlong, -⟩ := Outcome.guard_eq_ok_iff.mp hread
  exact Nat.not_lt.mp hlong

/-- A prologue whose time is one of those that a code can count is written, and comes back. -/
theorem exists_toDataField {p : Prologue} (hvalid : p.acquired.isValid)
    (hfirst : 0 ≤ p.acquired.daysSinceEpoch) (hlast : p.acquired.daysSinceEpoch ≤ lastCodeDay)
    (hsatellite : p.radiometry.satellite = p.satellite) :
    ∃ data, p.toDataField = .ok data ∧ ofDataField data = .ok p := by
  have hyear := (UtcTime.daysSinceEpoch_nonneg_iff hvalid).mp hfirst
  have hcode := UtcTime.toCode_eq p.acquired
  rw [if_neg (not_not.mpr hvalid), if_pos ⟨hfirst, hlast⟩] at hcode
  obtain ⟨data, hdata⟩ : ∃ data, p.toDataField = .ok data := by
    rw [toDataField, hcode]
    exact ⟨_, rfl⟩
  have hback := ofDataField_of_toDataField_since_epoch hyear hdata
  have hown : (⟨p.satellite, p.radiometry.gains⟩ : Radiometry) = p.radiometry := by
    rw [← hsatellite]
  rw [hown] at hback
  exact ⟨data, hdata, hback⟩

end Prologue

namespace Epilogue

/-- The one field of an epilogue: the coverage. -/
def fieldPlaces : List (Nat × Nat) := [(coverageAt, Coverage.length)]

/-- What is read of an epilogue depends on its field alone. -/
theorem ofDataField_congr (ha : length ≤ a.length) (hb : length ≤ b.length)
    (hsame : SameField a b (coverageAt, Coverage.length)) : ofDataField a = ofDataField b := by
  have hsame : (a.drop coverageAt).take Coverage.length =
      (b.drop coverageAt).take Coverage.length := hsame
  rw [ofDataField, ofDataField, if_neg (Nat.not_lt.mpr ha), if_neg (Nat.not_lt.mpr hb),
    Coverage.ofField, Coverage.ofField, hsame]

theorem length_le_of_ofDataField {e : Epilogue} (hread : ofDataField a = .ok e) :
    length ≤ a.length := by
  unfold ofDataField at hread
  split at hread
  · cases hread
  · exact Nat.not_lt.mp ‹_›

/-- An epilogue comes back. -/
theorem ofDataField_toDataField (e : Epilogue) :
    e.toDataField.length = length ∧ ofDataField e.toDataField = .ok e := by
  have hfit : FieldsFit length 0 [(coverageAt, e.coverage.bytes)] :=
    ⟨Nat.zero_le _, Nat.le_refl length⟩
  have hlength : e.toDataField.length = length := length_layFields hfit
  obtain ⟨-, rest, hplace⟩ := drop_layFields hfit List.mem_cons_self
  have hcoverage : Coverage.ofField e.toDataField coverageAt = e.coverage :=
    Coverage.ofField_of_drop rest hplace
  refine ⟨hlength, ?_⟩
  rw [ofDataField, if_neg (by omega), hcoverage]

end Epilogue

namespace DataField

/-- **Prologues and epilogues come back from their data fields, and nothing else in these matters.**
A prologue with a time that a code can count, and with the radiometry of its own satellite, can be
written, and comes back whatever stands behind its data field; so does every epilogue.  A data field
that is read is read alike with any bytes in the place of those that belong to no field. -/
theorem fields_read_back :
    (∀ p : Prologue, p.acquired.isValid → 0 ≤ p.acquired.daysSinceEpoch →
      p.acquired.daysSinceEpoch ≤ lastCodeDay → p.radiometry.satellite = p.satellite →
        ∃ data, p.toDataField = .ok data ∧
          ∀ rest, Prologue.ofDataField (data ++ rest) = .ok p) ∧
    (∀ (e : Epilogue) (rest : List UInt8), Epilogue.ofDataField (e.toDataField ++ rest) = .ok e) ∧
    (∀ data p, Prologue.ofDataField data = .ok p →
      ∀ other, AgreeIn Prologue.fieldPlaces other data → Prologue.ofDataField other = .ok p) ∧
    ∀ data e, Epilogue.ofDataField data = .ok e →
      ∀ other, AgreeIn Epilogue.fieldPlaces other data → Epilogue.ofDataField other = .ok e := by
  refine ⟨?_, ?_, ?_, ?_⟩
  · intro p hvalid hfirst hlast hsatellite
    obtain ⟨data, hdata, hback⟩ := Prologue.exists_toDataField hvalid hfirst hlast hsatellite
    have hlength := Prologue.length_le_of_ofDataField hback
    refine ⟨data, hdata, fun rest => ?_⟩
    rw [← hback]
    refine Prologue.ofDataField_congr ?_ hlength fun field hfield => ?_
    · rw [List.length_append]
      omega
    · have hin := Prologue.le_length_of_mem_fieldPlaces hfield
      exact sameField_append (by omega) rest
  · intro e rest
    obtain ⟨hlength, hback⟩ := e.ofDataField_toDataField
    rw [← hback]
    refine Epilogue.ofDataField_congr ?_ (Nat.le_of_eq hlength.symm) (sameField_append ?_ rest)
    · rw [List.length_append]
      omega
    · exact Nat.le_of_eq hlength.symm
  · intro data p hread other hagree
    have hlength := Prologue.length_le_of_ofDataField hread
    rw [← hread]
    exact Prologue.ofDataField_congr (hagree.1 ▸ hlength) hlength fun field hfield =>
      hagree.sameField hfield
  · intro data e hread other hagree
    have hlength := Epilogue.length_le_of_ofDataField hread
    rw [← hread]
    exact Epilogue.ofDataField_congr (hagree.1 ▸ hlength) hlength
      (hagree.sameField List.mem_cons_self)

/-- A prologue of the last second of the last day that a code can count; its longitude is a word
that is no number. -/
def lastSecond : Prologue where
  satellite := 322
  acquired := ⟨2137, 6, 6, 23, 59, 59⟩
  longitude := ⟨0xFFA00001⟩
  plannedCoverage := ⟨1, -2, 3, -4, 5, -6, 7, -8⟩
  radiometry := ⟨322, Vector.ofFn fun i => ⟨⟨.ofNat i⟩, .indefinite⟩⟩

/-- The prologue of the last second comes back with bytes behind it and with another byte between its
fields, and an epilogue does so too. -/
theorem fields_read_back_lastSecond :
    lastSecond.acquired.daysSinceEpoch = lastCodeDay ∧
      (∃ data, lastSecond.toDataField = .ok data ∧
        Prologue.ofDataField (data ++ [1, 2]) = .ok lastSecond ∧
        Prologue.ofDataField ((data ++ [1, 2]).set 60133 255) = .ok lastSecond) ∧
      Epilogue.ofDataField (((⟨lastSecond.plannedCoverage⟩ : Epilogue).toDataField ++ [9]).set 307 1) =
        .ok ⟨lastSecond.plannedCoverage⟩ := by
  have hday : lastSecond.acquired.daysSinceEpoch = lastCodeDay := by decide
  obtain ⟨hprologue, hepilogue, hother, hotherEpilogue⟩ := fields_read_back
  refine ⟨hday, ?_, ?_⟩
  · obtain ⟨data, hdata, hback⟩ := hprologue lastSecond (by decide) (by omega) (by omega) rfl
    have hread := hback [1, 2]
    exact ⟨data, hdata, hread, hother _ _ hread _ (agreeIn_set (by decide) 255)⟩
  · exact hotherEpilogue _ _ (hepilogue ⟨lastSecond.plannedCoverage⟩ [9]) _
      (agreeIn_set (by decide) 1)

end DataField

end SeviriImagery
