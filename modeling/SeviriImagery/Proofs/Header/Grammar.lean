import SeviriImagery.Header.Writer
import SeviriImagery.Proofs.Word

/-!
# The grammar of header records

A header is a primary record and then any number of further records, one behind the other with
nothing between them; what follows the header is no concern of it.  `HeaderRecord` is a record of
any kind, `HeaderRecord.WellFormed` says which of them may stand in a header, and
`SegmentHeader.ofRecords` says what some of them mean together: of each kind the last one counts.

Both directions are inductions over the records.  `addRecords_bytes` reads well-formed records
that were written, `records_of_addRecords` finds the records behind a reading that succeeded, and
from the two follows that a reader accepts the written form of a header and nothing else.
-/

namespace SeviriImagery

/-- A record of a header, of whatever kind. -/
structure HeaderRecord where
  kind : UInt8
  body : List UInt8

/-- A record that is added is as long as its kind demands. -/
theorem SegmentHeader.leastLength_le_of_addRecord {h next : SegmentHeader} {kind : UInt8}
    {length : Nat} {body : List UInt8} {k : RecordKind} (hk : RecordKind.ofNumber? kind = some k)
    (hadd : h.addRecord kind length body = .ok next) : k.leastLength ≤ length := by
  unfold SegmentHeader.addRecord at hadd
  rw [hk] at hadd
  simp only at hadd
  split at hadd
  · cases hadd
  · split at hadd
    · cases hadd
    · rename_i hlength
      exact Nat.not_lt.mp hlength

namespace HeaderRecord

/-- The length that a record declares: that of its body, its kind and its length. -/
def length (r : HeaderRecord) : Nat := r.body.length + 3

/-- A record as it stands in a header. -/
def bytes (r : HeaderRecord) : List UInt8 := recordBytes r.kind r.body

/-- A record that may stand behind the primary one: it is no primary record itself, two bytes can
hold its length, and it is as long as its kind demands. -/
structure WellFormed (r : HeaderRecord) : Prop where
  not_primary : r.kind ≠ 0
  fits : r.length < 65536
  structure_length : r.kind = 1 → 9 ≤ r.length
  navigation_length : r.kind = 2 → 51 ≤ r.length
  stamp_length : r.kind = 5 → 10 ≤ r.length
  identification_length : r.kind = 128 → 13 ≤ r.length

/-- The body of the last of some records that is of a kind. -/
def lastBody (records : List HeaderRecord) (kind : UInt8) : Option (List UInt8) :=
  (records.reverse.find? fun r => r.kind == kind).map body

/-- A header with the meaning of a record added to it. -/
def addTo (h : SegmentHeader) (r : HeaderRecord) : SegmentHeader :=
  match RecordKind.ofNumber? r.kind with
  | none => h
  | some k => h.withRecord k r.body

theorem length_bytes (r : HeaderRecord) : r.bytes.length = r.length := by
  simp [bytes, recordBytes, length, Word.length_toBytes]
  omega

/-- A record behind the others takes the place of all of its kind. -/
theorem lastBody_append_singleton (records : List HeaderRecord) (r : HeaderRecord) (kind : UInt8) :
    lastBody (records ++ [r]) kind = if r.kind = kind then some r.body else lastBody records kind := by
  by_cases hkind : r.kind = kind
  · simp [lastBody, hkind]
  · simp [lastBody, hkind]

theorem leastLength_le {r : HeaderRecord} (hwf : r.WellFormed) {k : RecordKind}
    (hk : RecordKind.ofNumber? r.kind = some k) : k.leastLength ≤ r.length := by
  unfold RecordKind.ofNumber? at hk
  split at hk
  · cases hk; exact hwf.structure_length ‹_›
  split at hk
  · cases hk; exact hwf.navigation_length ‹_›
  split at hk
  · cases hk; exact Nat.le_add_left 3 _
  split at hk
  · cases hk; exact hwf.stamp_length ‹_›
  split at hk
  · cases hk; exact hwf.identification_length ‹_›
  · cases hk

theorem wellFormed_of_addRecord {h next : SegmentHeader} {r : HeaderRecord} (hfits : r.length < 65536)
    (hadd : h.addRecord r.kind r.length r.body = .ok next) : r.WellFormed ∧ next = r.addTo h := by
  unfold SegmentHeader.addRecord at hadd
  split at hadd
  · cases hadd
  · rename_i hprimary
    split at hadd
    · rename_i hnone
      cases hadd
      refine ⟨⟨hprimary, hfits, ?_, ?_, ?_, ?_⟩, by simp [addTo, hnone]⟩ <;>
        (intro hkind; simp [RecordKind.ofNumber?, hkind] at hnone)
    · rename_i k hsome
      split at hadd
      · cases hadd
      · rename_i hlength
        cases hadd
        refine ⟨⟨hprimary, hfits, ?_, ?_, ?_, ?_⟩, by simp [addTo, hsome]⟩ <;>
          (intro hkind; simp [RecordKind.ofNumber?, hkind] at hsome; subst hsome)
        all_goals simpa [RecordKind.leastLength] using hlength

/-- A reader lets a well-formed record pass. -/
theorem addRecord_of_wellFormed {r : HeaderRecord} (hwf : r.WellFormed) (h : SegmentHeader) :
    h.addRecord r.kind r.length r.body = .ok (r.addTo h) := by
  unfold SegmentHeader.addRecord addTo
  rw [if_neg hwf.not_primary]
  cases hk : RecordKind.ofNumber? r.kind with
  | none => rfl
  | some k =>
      have hlength := leastLength_le hwf hk
      simp [Nat.not_lt.mpr hlength]

/-- The first bytes of a record that was written are its kind and its length. -/
theorem bytes_eq (r : HeaderRecord) :
    r.bytes = r.kind :: UInt8.ofNat (r.length / 256) :: UInt8.ofNat r.length :: r.body := rfl

/-- The two bytes of a length are read back. -/
theorem ofBytes_length {r : HeaderRecord} (hfits : r.length < 65536) :
    Word.ofBytes [UInt8.ofNat (r.length / 256), UInt8.ofNat r.length] = r.length := by
  rw [← Word.toBytes_two, Word.ofBytes_toBytes]
  exact Nat.mod_eq_of_lt hfits

/-- A record whose kind, length and body stand in front of other bytes is read from them. -/
theorem bytes_of_parts {high low : UInt8} {length : Nat} (kind : UInt8) (tail : List UInt8)
    (hdigits : Word.ofBytes [high, low] = length) (hlong : 3 ≤ length)
    (hin : length ≤ tail.length + 3) :
    (⟨kind, tail.take (length - 3)⟩ : HeaderRecord).length = length ∧
      (⟨kind, tail.take (length - 3)⟩ : HeaderRecord).bytes =
        kind :: high :: low :: tail.take (length - 3) := by
  have hlength : (⟨kind, tail.take (length - 3)⟩ : HeaderRecord).length = length := by
    simp only [HeaderRecord.length, List.length_take]
    omega
  have hback : Word.toBytes 2 (Word.ofBytes [high, low]) = [high, low] :=
    Word.toBytes_ofBytes [high, low]
  rw [hdigits, Word.toBytes_two] at hback
  simp only [List.cons.injEq, and_true] at hback
  exact ⟨hlength, by rw [bytes_eq, hlength, hback.1, hback.2]⟩

end HeaderRecord

namespace SegmentHeader

open HeaderRecord

/-- What some records behind a primary one mean: of each kind that is understood the last one
counts, and records of other kinds mean nothing. -/
def ofRecords (primary : PrimaryHeader) (records : List HeaderRecord) : SegmentHeader where
  primary := primary
  imageStructure := (lastBody records 1).map ImageStructure.ofBody
  navigation := (lastBody records 2).map ImageNavigation.ofBody
  annotationText := (lastBody records 4).map textField
  timeStamp := (lastBody records 5).map TimeStamp.ofBody
  identification := (lastBody records 128).map SegmentIdentification.ofBody

/-- One record more takes the place of the one of its kind, and leaves the others. -/
theorem addTo_ofRecords (primary : PrimaryHeader) (records : List HeaderRecord) (r : HeaderRecord) :
    r.addTo (ofRecords primary records) = ofRecords primary (records ++ [r]) := by
  unfold addTo RecordKind.ofNumber?
  by_cases h1 : r.kind = 1
  · simp [h1, ofRecords, lastBody_append_singleton, withRecord]
  by_cases h2 : r.kind = 2
  · simp [h2, ofRecords, lastBody_append_singleton, withRecord]
  by_cases h4 : r.kind = 4
  · simp [h4, ofRecords, lastBody_append_singleton, withRecord]
  by_cases h5 : r.kind = 5
  · simp [h5, ofRecords, lastBody_append_singleton, withRecord]
  by_cases h128 : r.kind = 128
  · simp [h128, ofRecords, lastBody_append_singleton, withRecord]
  · simp [h1, h2, h4, h5, h128, ofRecords, lastBody_append_singleton]

/-- Adding records one after the other makes the header of them all. -/
theorem foldl_addTo (primary : PrimaryHeader) (records : List HeaderRecord) :
    records.foldl addTo (ofPrimary primary) = ofRecords primary records := by
  induction records using List.reverseRecOn with
  | nil => rfl
  | append_singleton records r ih => rw [List.foldl_append, ih]; exact addTo_ofRecords primary records r

/-- Well-formed records that were written are read, whatever follows them. -/
theorem addRecords_bytes {size : Nat} {records : List HeaderRecord}
    (hwf : ∀ r ∈ records, r.WellFormed) (offset : Nat) (rest : List UInt8) (h : SegmentHeader) :
    addRecords size (offset + (records.flatMap bytes).length) offset (records.flatMap bytes ++ rest) h =
      .ok (records.foldl addTo h) := by
  induction records generalizing offset h with
  | nil =>
      unfold addRecords
      simp
  | cons r records ih =>
      have hr : r.WellFormed := hwf r List.mem_cons_self
      have hspan : offset + ((r :: records).flatMap bytes).length =
          offset + r.length + (records.flatMap bytes).length := by
        rw [List.flatMap_cons, List.length_append, length_bytes]
        omega
      have hlong : ¬(r.length < 3 ∨
          offset + r.length + (records.flatMap bytes).length < offset + r.length) := by
        simp only [HeaderRecord.length]
        omega
      have hbody : r.body.length = r.length - 3 := by simp [HeaderRecord.length]
      rw [hspan, List.flatMap_cons, bytes_eq]
      unfold addRecords
      rw [if_pos (by simp only [HeaderRecord.length]; omega)]
      simp only [List.cons_append, List.append_assoc, ofBytes_length hr.fits, if_neg hlong,
        ← hbody, List.take_left, List.drop_left, addRecord_of_wellFormed hr]
      exact ih (fun r' hr' => hwf r' (List.mem_cons_of_mem r hr')) _ _

/-- A reading that succeeds has read well-formed records, which fill the bytes up to the total. -/
theorem records_of_addRecords {size total offset : Nat} {rest : List UInt8} {h next : SegmentHeader}
    (hle : offset ≤ total) (hin : total ≤ offset + rest.length)
    (hadd : addRecords size total offset rest h = .ok next) :
    ∃ records : List HeaderRecord, (∀ r ∈ records, r.WellFormed) ∧
      rest.take (total - offset) = records.flatMap bytes ∧ next = records.foldl addTo h := by
  revert hadd
  fun_induction addRecords size total offset rest h with
  | case1 => intro hadd; cases hadd
  | case2 => intro hadd; cases hadd
  | case3 offset h hlt kind high low tail length hgood added hadded ih =>
      intro hadd
      have hbounds : 3 ≤ length ∧ offset + length ≤ total := by omega
      have hfits : length < 65536 := by simpa using Word.ofBytes_lt [high, low]
      rw [List.length_cons, List.length_cons, List.length_cons] at hin
      have hdigits : Word.ofBytes [high, low] = length := rfl
      obtain ⟨hr, hbytes⟩ := bytes_of_parts kind tail hdigits hbounds.1 (by omega)
      have hread : h.addRecord (⟨kind, tail.take (length - 3)⟩ : HeaderRecord).kind
          (⟨kind, tail.take (length - 3)⟩ : HeaderRecord).length (tail.take (length - 3)) =
            .ok added := by
        rwa [hr]
      obtain ⟨hwf, hnew⟩ := wellFormed_of_addRecord (by rwa [hr]) hread
      obtain ⟨records, hrecords, htake, hnext⟩ := ih hbounds.2
        (by rw [List.length_drop]; omega) hadd
      refine ⟨⟨kind, tail.take (length - 3)⟩ :: records, ?_, ?_, ?_⟩
      · intro r hmem
        rcases List.mem_cons.mp hmem with rfl | hmem
        · exact hwf
        · exact hrecords r hmem
      · have hsplit : total - offset = length - 3 + (total - (offset + length)) + 3 := by omega
        rw [List.flatMap_cons, hbytes, ← htake, hsplit]
        simp only [List.take_succ_cons, List.cons_append, List.take_add]
      · rw [List.foldl_cons, ← hnew]
        exact hnext
  | case4 => intro hadd; cases hadd
  | case5 => intro hadd; cases hadd
  | case6 offset rest h hlt heq =>
      intro hadd
      have heq : offset = total := by simpa using heq
      cases hadd
      exact ⟨[], by simp, by simp [heq], rfl⟩

end SegmentHeader

namespace PrimaryHeader

/-- A primary header as it stands in a file. -/
theorem bytes_eq (p : PrimaryHeader) :
    p.bytes =
      0 :: 0 :: 16 :: p.fileType :: (Word.bytes32 p.headerLength ++ Word.bytes64 p.dataBits) := by
  have hbody : (p.fileType :: Word.bytes32 p.headerLength ++ Word.bytes64 p.dataBits).length = 13 := rfl
  unfold PrimaryHeader.bytes recordBytes
  rw [hbody]
  rfl

theorem length_bytes (p : PrimaryHeader) : p.bytes.length = primaryLength := rfl

/-- A primary header that was written is read, if the length that it declares can be one. -/
theorem ofBytes_bytes {p : PrimaryHeader} (hleast : primaryLength ≤ p.headerLength.toNat)
    (hmost : p.headerLength.toNat ≤ headerLimit) (rest : List UInt8) :
    PrimaryHeader.ofBytes (p.bytes ++ rest) = .ok p := by
  have hlength : ¬(p.bytes ++ rest).length < primaryLength := by
    rw [List.length_append, length_bytes]
    omega
  have hfield : Word.field (p.bytes ++ rest) 1 2 = primaryLength := by rw [bytes_eq]; rfl
  have htotal : Word.uint32 (p.bytes ++ rest) 4 = p.headerLength :=
    Word.uint32_of_drop (Word.bytes64 p.dataBits ++ rest) rfl
  have hbits : Word.uint64 (p.bytes ++ rest) 8 = p.dataBits :=
    Word.uint64_of_drop rest rfl
  have hkind : Word.byte (p.bytes ++ rest) 0 = 0 := rfl
  have htype : Word.byte (p.bytes ++ rest) 3 = p.fileType := rfl
  unfold PrimaryHeader.ofBytes
  simp only [hlength, hfield, htotal, hbits, hkind, htype, if_false, ne_eq, not_true_eq_false,
    Nat.not_lt.mpr hleast, Nat.not_lt.mpr hmost]

/-- A primary header that is read stands written at the start of the buffer. -/
theorem bytes_of_ofBytes {buffer : List UInt8} {p : PrimaryHeader}
    (hread : PrimaryHeader.ofBytes buffer = .ok p) :
    buffer.take primaryLength = p.bytes ∧ primaryLength ≤ buffer.length ∧
      primaryLength ≤ p.headerLength.toNat ∧ p.headerLength.toNat ≤ headerLimit := by
  unfold PrimaryHeader.ofBytes at hread
  simp only at hread
  split at hread
  · cases hread
  rename_i hlength
  split at hread
  · cases hread
  rename_i hkind
  split at hread
  · cases hread
  rename_i hfield
  split at hread
  · cases hread
  rename_i hleast
  split at hread
  · cases hread
  rename_i hmost
  cases hread
  have hlength : 16 ≤ buffer.length := Nat.not_lt.mp hlength
  have hzero : [(0 : UInt8)] = (buffer.drop 0).take 1 := by
    rw [← Word.singleton_byte (by omega), Decidable.not_not.mp hkind]
  have hown : [(0 : UInt8), 16] = (buffer.drop 1).take 2 := by
    rw [← Word.toBytes_field (by omega), Decidable.not_not.mp hfield]
    rfl
  refine ⟨?_, hlength, Nat.not_lt.mp hleast, Nat.not_lt.mp hmost⟩
  calc buffer.take primaryLength
      = (buffer.drop 0).take 1 ++ ((buffer.drop 1).take 2 ++ ((buffer.drop 3).take 1 ++
          ((buffer.drop 4).take 4 ++ (buffer.drop 8).take 8))) := by
        rw [show primaryLength = 1 + (2 + (1 + (4 + 8))) from rfl]
        simp only [List.take_add, List.drop_drop, List.drop_zero]
    _ = [0] ++ ([0, 16] ++ ([Word.byte buffer 3] ++
          (Word.bytes32 (Word.uint32 buffer 4) ++ Word.bytes64 (Word.uint64 buffer 8)))) := by
        rw [← hzero, ← hown, ← Word.singleton_byte (by omega), Word.bytes32_uint32 (by omega),
          Word.bytes64_uint64 (by omega)]
    _ = _ := by rw [bytes_eq]; rfl

end PrimaryHeader

namespace SegmentHeader

open HeaderRecord

/-- The written form of a header, with anything behind it: a primary header that declares the length
of all records, and well-formed records behind it. -/
def IsWritten (buffer : List UInt8) (primary : PrimaryHeader) (records : List HeaderRecord) : Prop :=
  (∃ rest, buffer = primary.bytes ++ (records.flatMap bytes ++ rest)) ∧
    primary.headerLength.toNat = primaryLength + (records.flatMap bytes).length ∧
    primary.headerLength.toNat ≤ headerLimit ∧ ∀ r ∈ records, r.WellFormed

/-- A header that was written is read, whatever follows it. -/
theorem ofBytes_of_isWritten {buffer : List UInt8} {primary : PrimaryHeader}
    {records : List HeaderRecord} (hwritten : IsWritten buffer primary records) :
    SegmentHeader.ofBytes buffer = .ok (ofRecords primary records) := by
  obtain ⟨⟨rest, rfl⟩, htotal, hlimit, hwf⟩ := hwritten
  have hprimary := PrimaryHeader.ofBytes_bytes (p := primary) (by omega) hlimit
    (records.flatMap bytes ++ rest)
  have hlong : ¬(primary.bytes ++ (records.flatMap bytes ++ rest)).length <
      primary.headerLength.toNat := by
    simp only [List.length_append, PrimaryHeader.length_bytes]
    omega
  have hdrop : (primary.bytes ++ (records.flatMap bytes ++ rest)).drop primaryLength =
      records.flatMap bytes ++ rest := rfl
  unfold SegmentHeader.ofBytes
  rw [hprimary]
  show (if (primary.bytes ++ (records.flatMap bytes ++ rest)).length < primary.headerLength.toNat
    then Except.error _ else addRecords _ primary.headerLength.toNat primaryLength _ _) = _
  rw [if_neg hlong, hdrop, htotal, addRecords_bytes hwf, foldl_addTo]

/-- A header that is read stands written at the start of the buffer. -/
theorem isWritten_of_ofBytes {buffer : List UInt8} {h : SegmentHeader}
    (hread : SegmentHeader.ofBytes buffer = .ok h) :
    ∃ records, IsWritten buffer h.primary records ∧ h = ofRecords h.primary records := by
  unfold SegmentHeader.ofBytes at hread
  cases hprimary : PrimaryHeader.ofBytes buffer with
  | error e => rw [hprimary] at hread; cases hread
  | ok primary =>
      rw [hprimary] at hread
      change (if buffer.length < primary.headerLength.toNat then Except.error _ else
        addRecords buffer.length primary.headerLength.toNat primaryLength
          (buffer.drop primaryLength) (.ofPrimary primary)) = _ at hread
      split at hread
      · cases hread
      rename_i hlong
      obtain ⟨htake, hshort, hleast, hmost⟩ := PrimaryHeader.bytes_of_ofBytes hprimary
      obtain ⟨records, hwf, hrecords, hnext⟩ := records_of_addRecords hleast
        (by rw [List.length_drop]; omega) hread
      rw [foldl_addTo] at hnext
      subst hnext
      refine ⟨records, ⟨⟨(buffer.drop primaryLength).drop
        (primary.headerLength.toNat - primaryLength), ?_⟩, ?_, hmost, hwf⟩, rfl⟩
      · show buffer = primary.bytes ++ _
        rw [← htake, ← hrecords, List.take_append_drop, List.take_append_drop]
      · have hlength := congrArg List.length hrecords
        rw [List.length_take, List.length_drop] at hlength
        show primary.headerLength.toNat = _
        omega

end SegmentHeader

end SeviriImagery
