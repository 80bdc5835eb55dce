import SeviriImagery.Proofs.Header.Written

/-!
# Records in any order

The records of a header may stand in any order, with records of other kinds between them.  As there
is one of each kind at most, the last one of a kind is the only one, wherever it stands
(`HeaderRecord.lastBody_of_perm`).  So what is read is what the records were made of
(`SegmentHeader.ofRecords_of_perm`), if the texts of the header are such as their fields can hold:
a field is filled up with blanks, which a reader takes off the end of the text again.
-/

namespace SeviriImagery

namespace HeaderRecord

/-- A record of a kind that the library does not understand. -/
structure IsForeign (r : HeaderRecord) : Prop where
  kind : r.kind ∉ [0, 1, 2, 4, 5, 128]
  fits : r.length < 65536

/-- A foreign record is a record all the same, and is stepped over whole. -/
theorem IsForeign.wellFormed {r : HeaderRecord} (hforeign : r.IsForeign) : r.WellFormed where
  not_primary := fun hkind => hforeign.kind (by simp [hkind])
  fits := hforeign.fits
  structure_length := fun hkind => absurd (by simp [hkind]) hforeign.kind
  navigation_length := fun hkind => absurd (by simp [hkind]) hforeign.kind
  stamp_length := fun hkind => absurd (by simp [hkind]) hforeign.kind
  identification_length := fun hkind => absurd (by simp [hkind]) hforeign.kind

/-- The last record of a kind is the last of the records of that kind. -/
theorem lastBody_eq (records : List HeaderRecord) (kind : UInt8) :
    lastBody records kind = (records.filter fun r => r.kind == kind).getLast?.map body := by
  rw [lastBody, ← List.head?_filter, List.filter_reverse, List.head?_reverse]

/-- If there is one record of a kind at most, the order of the records does not matter for it. -/
theorem lastBody_of_perm {records others : List HeaderRecord} {kind : UInt8}
    {only : Option HeaderRecord} (hperm : records.Perm others)
    (honly : (others.filter fun r => r.kind == kind) = only.toList) :
    lastBody records kind = only.map body := by
  have hfilter := hperm.filter fun r => r.kind == kind
  rw [honly] at hfilter
  rw [lastBody_eq]
  cases only with
  | none => rw [List.Perm.eq_nil hfilter]; rfl
  | some r => rw [List.perm_singleton.mp hfilter]; rfl

end HeaderRecord

namespace SegmentHeader

open HeaderRecord

variable {h : SegmentHeader}

/-- The texts of a header are such as their fields can hold. -/
structure FitsFields (h : SegmentHeader) : Prop where
  projection : ∀ n, h.navigation = some n →
    Text.IsFieldText n.projection ∧ n.projection.utf8ByteSize ≤ projectionLength
  annotation : ∀ text, h.annotationText = some text →
    Text.IsFieldText text ∧ text.utf8ByteSize ≤ 65532

/-- The written records of a header, but for the primary one. -/
def recordBytes (h : SegmentHeader) : List (List UInt8) :=
  (h.imageStructure.map ImageStructure.bytes).toList ++
    (h.navigation.map ImageNavigation.bytes).toList ++
    (h.annotationText.map annotationBytes).toList ++
    (h.timeStamp.map TimeStamp.bytes).toList ++
    (h.identification.map SegmentIdentification.bytes).toList

/-- The record of a kind in a header. -/
def recordOf (h : SegmentHeader) : RecordKind → Option HeaderRecord
  | .imageStructure => h.imageStructure.map ImageStructure.record
  | .imageNavigation => h.navigation.map ImageNavigation.record
  | .annotationText => h.annotationText.map annotationRecord
  | .timeStamp => h.timeStamp.map TimeStamp.record
  | .segmentIdentification => h.identification.map SegmentIdentification.record

/-- The records of a header, but for the primary one. -/
def records (h : SegmentHeader) : List HeaderRecord :=
  (h.recordOf .imageStructure).toList ++ (h.recordOf .imageNavigation).toList ++
    (h.recordOf .annotationText).toList ++ (h.recordOf .timeStamp).toList ++
    (h.recordOf .segmentIdentification).toList

/-- The records that a header is written with are its records, byte for byte. -/
theorem recordBytes_eq (h : SegmentHeader) : h.recordBytes = h.records.map bytes := by
  have hwritten : ∀ {α : Type} (o : Option α) (record : α → HeaderRecord),
      (o.map fun a => (record a).bytes).toList = (o.map record).toList.map bytes := by
    intro α o record
    cases o <;> rfl
  simp only [records, List.map_append, recordOf, ← hwritten]
  rfl

/-- The record that a header has of a kind is of that kind. -/
theorem kind_of_recordOf {k : RecordKind} {r : HeaderRecord} (hr : h.recordOf k = some r) :
    r.kind = k.number := by
  cases k <;> obtain ⟨value, -, rfl⟩ := Option.map_eq_some_iff.mp hr <;> rfl

/-- A header has one record of a kind at most. -/
theorem filter_records (h : SegmentHeader) (k : RecordKind) :
    (h.records.filter fun r => r.kind == k.number) = (h.recordOf k).toList := by
  have hone : ∀ other, ((h.recordOf other).toList.filter fun r => r.kind == k.number) =
      if other = k then (h.recordOf k).toList else [] := by
    intro other
    have hnumber : (other.number == k.number) = decide (other = k) := by
      cases other <;> cases k <;> rfl
    cases hr : h.recordOf other with
    | none =>
        by_cases hsame : other = k
        · rw [if_pos hsame, ← hsame, hr]
          rfl
        · rw [if_neg hsame]
          rfl
    | some r =>
        rw [Option.toList_some, List.filter_singleton, kind_of_recordOf hr, hnumber]
        by_cases hsame : other = k
        · rw [if_pos hsame, ← hsame, hr]
          simp
        · simp [hsame]
  simp only [records, List.filter_append, hone]
  cases k <;> simp

/-- A header whose fields fit has well-formed records. -/
theorem wellFormed_of_recordOf (hfits : h.FitsFields) {k : RecordKind} {r : HeaderRecord}
    (hr : h.recordOf k = some r) : r.WellFormed := by
  have hkind := kind_of_recordOf hr
  cases k with
  | imageStructure =>
      obtain ⟨s, -, rfl⟩ := Option.map_eq_some_iff.mp hr
      exact wellFormed_of_kind _ hkind (by rw [ImageStructure.length_record]; decide)
        (by rw [ImageStructure.length_record]; decide)
  | imageNavigation =>
      obtain ⟨n, -, rfl⟩ := Option.map_eq_some_iff.mp hr
      exact wellFormed_of_kind _ hkind (by rw [ImageNavigation.length_record]; decide)
        (by rw [ImageNavigation.length_record]; decide)
  | annotationText =>
      obtain ⟨text, htext, rfl⟩ := Option.map_eq_some_iff.mp hr
      have hlength := (hfits.annotation text htext).2
      exact wellFormed_of_kind _ hkind (by rw [length_annotationRecord]; exact Nat.le_add_left 3 _)
        (by rw [length_annotationRecord]; omega)
  | timeStamp =>
      obtain ⟨s, -, rfl⟩ := Option.map_eq_some_iff.mp hr
      exact wellFormed_of_kind _ hkind (by rw [TimeStamp.length_record]; decide)
        (by rw [TimeStamp.length_record]; decide)
  | segmentIdentification =>
      obtain ⟨s, -, rfl⟩ := Option.map_eq_some_iff.mp hr
      exact wellFormed_of_kind _ hkind (by rw [SegmentIdentification.length_record]; decide)
        (by rw [SegmentIdentification.length_record]; decide)

/-- So are all the records it is written with. -/
theorem wellFormed_of_mem_records (hfits : h.FitsFields) {r : HeaderRecord} (hr : r ∈ h.records) :
    r.WellFormed := by
  simp only [records, List.mem_append, Option.mem_toList] at hr
  rcases hr with (((hr | hr) | hr) | hr) | hr <;> exact wellFormed_of_recordOf hfits hr

/-- The name of a projection comes back from its field if the field can hold it. -/
theorem fieldText_eq {text : String} (htext : Text.IsFieldText text)
    (hlength : text.utf8ByteSize ≤ projectionLength) : fieldText text = text := by
  rw [← Text.length_encode] at hlength
  rw [fieldText, blankPadded]
  simp only [List.take_of_length_le hlength]
  exact Text.textField_encode_append htext _

/-- The records of a header mean the header, in whatever order they stand and whatever foreign
records stand between them. -/
theorem ofRecords_of_perm {foreign records : List HeaderRecord} (hfits : h.FitsFields)
    (hforeign : ∀ r ∈ foreign, r.IsForeign) (hperm : records.Perm (h.records ++ foreign)) :
    ofRecords h.primary records = h := by
  have hlast (k : RecordKind) : lastBody records k.number = (h.recordOf k).map body := by
    refine lastBody_of_perm hperm ?_
    have hnone : (foreign.filter fun r => r.kind == k.number) = [] := by
      rw [List.filter_eq_nil_iff]
      intro r hr hkind
      refine (hforeign r hr).kind ?_
      rw [beq_iff_eq.mp hkind]
      cases k <;> decide
    rw [List.filter_append, filter_records, hnone, List.append_nil]
  have hstructure : (lastBody records 1).map ImageStructure.ofBody = h.imageStructure := by
    rw [show (1 : UInt8) = RecordKind.imageStructure.number from rfl, hlast, recordOf]
    cases h.imageStructure with
    | none => rfl
    | some s => exact congrArg some s.ofBody_record
  have hnavigation : (lastBody records 2).map ImageNavigation.ofBody = h.navigation := by
    rw [show (2 : UInt8) = RecordKind.imageNavigation.number from rfl, hlast, recordOf]
    cases hn : h.navigation with
    | none => rfl
    | some n =>
        obtain ⟨htext, hlength⟩ := hfits.projection n hn
        have hback := n.ofBody_record
        rw [fieldText_eq htext hlength] at hback
        exact congrArg some hback
  have hannotation : (lastBody records 4).map textField = h.annotationText := by
    rw [show (4 : UInt8) = RecordKind.annotationText.number from rfl, hlast, recordOf]
    cases htext : h.annotationText with
    | none => rfl
    | some text =>
        have hback := Text.textField_encode_append (hfits.annotation text htext).1 0
        rw [List.replicate_zero, List.append_nil] at hback
        exact congrArg some hback
  have hstamp : (lastBody records 5).map TimeStamp.ofBody = h.timeStamp := by
    rw [show (5 : UInt8) = RecordKind.timeStamp.number from rfl, hlast, recordOf]
    cases h.timeStamp with
    | none => rfl
    | some s => exact congrArg some s.ofBody_record
  have hidentification : (lastBody records 128).map SegmentIdentification.ofBody =
      h.identification := by
    rw [show (128 : UInt8) = RecordKind.segmentIdentification.number from rfl, hlast, recordOf]
    cases h.identification with
    | none => rfl
    | some s => exact congrArg some s.ofBody_record
  rw [ofRecords, hstructure, hnavigation, hannotation, hstamp, hidentification]

/-- **Records that were written are read as they were.**  A header whose texts fit their fields is
read from its primary record and its other records, which may stand in any order with foreign
records between them and anything behind them, and nothing is read that was not written. -/
theorem ofBytes_of_written_records {foreign : List HeaderRecord} {written : List (List UInt8)}
    (hfits : h.FitsFields) (hforeign : ∀ r ∈ foreign, r.IsForeign)
    (hwritten : written.Perm (h.recordBytes ++ foreign.map HeaderRecord.bytes))
    (htotal : h.primary.headerLength.toNat = primaryLength + written.flatten.length)
    (hlimit : h.primary.headerLength.toNat ≤ headerLimit) (rest : List UInt8) :
    SegmentHeader.ofBytes (h.primary.bytes ++ written.flatten ++ rest) = .ok h := by
  rw [recordBytes_eq, ← List.map_append] at hwritten
  have horder : Relation.Comp (fun a b => a = List.map HeaderRecord.bytes b) List.Perm written
      (h.records ++ foreign) := by
    rw [List.eq_map_comp_perm]
    exact hwritten
  obtain ⟨records, rfl, hperm⟩ := horder
  have hwf : ∀ r ∈ records, r.WellFormed := by
    intro r hr
    rcases List.mem_append.mp (hperm.mem_iff.mp hr) with hr | hr
    · exact wellFormed_of_mem_records hfits hr
    · exact (hforeign r hr).wellFormed
  rw [← List.flatMap_def] at htotal ⊢
  have hread := @ofBytes_of_isWritten _ h.primary records
    ⟨⟨rest, List.append_assoc _ _ _⟩, htotal, hlimit, hwf⟩
  rw [hread, ofRecords_of_perm hfits hforeign hperm]

/-- A header without a time stamp. -/
def unstamped : SegmentHeader where
  primary := ⟨imageFile, 103, 40⟩
  imageStructure := some ⟨10, 2, 2, 0⟩
  navigation := some ⟨"GEOS(+000.0)", -13642337, -13642337, 1, 2⟩
  annotationText := some "H-000"
  timeStamp := none
  identification := some ⟨322, 9, 2, 1, 2, nativeFormat⟩

/-- The header is read with its records the other way round and a foreign record in front. -/
theorem ofBytes_of_reversed_records :
    unstamped.FitsFields ∧ (⟨6, [1, 2, 3]⟩ : HeaderRecord).IsForeign ∧
      SegmentHeader.ofBytes (unstamped.primary.bytes ++
        (unstamped.recordBytes ++ [(⟨6, [1, 2, 3]⟩ : HeaderRecord).bytes]).reverse.flatten ++
          [255]) = .ok unstamped := by
  have hfits : unstamped.FitsFields := by
    refine ⟨?_, ?_⟩
    · intro n hn
      cases hn
      exact ⟨⟨by simp [Text.IsAscii], by simp [Text.isFilling]⟩, by decide⟩
    · intro text htext
      cases htext
      exact ⟨⟨by simp [Text.IsAscii], by simp [Text.isFilling]⟩, by decide⟩
  have hforeign : ∀ r ∈ [(⟨6, [1, 2, 3]⟩ : HeaderRecord)], r.IsForeign := by
    intro r hr
    rw [List.mem_singleton.mp hr]
    exact ⟨by decide, by decide⟩
  have hlengths : (unstamped.recordBytes ++ [(⟨6, [1, 2, 3]⟩ : HeaderRecord).bytes]).map
      List.length = [9, 51, "H-000".utf8ByteSize + 3, 13, 6] := by
    simp only [recordBytes_eq, records, recordOf, unstamped, Option.map_some, Option.map_none,
      Option.toList_some, Option.toList_none, List.map_cons, List.map_nil, length_bytes,
      ImageStructure.length_record, ImageNavigation.length_record, length_annotationRecord,
      SegmentIdentification.length_record, List.cons_append, List.nil_append]
    rfl
  refine ⟨hfits, hforeign _ List.mem_cons_self, ?_⟩
  refine ofBytes_of_written_records hfits hforeign (List.reverse_perm _) ?_ (by decide) [255]
  rw [List.length_flatten, List.map_reverse, List.sum_reverse]
  exact congrArg (fun lengths => primaryLength + lengths.sum) hlengths.symm

end SegmentHeader

end SeviriImagery
