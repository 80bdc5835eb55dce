import SeviriImagery.Proofs.Header.Written

/-!
# Headers read from a file

A file is read from its front: sixteen bytes first, then the rest of its header, and then the data
field, each as far as what was read before says.  Nothing is lost that way.  The header is the one
that a buffer with the whole file would give, and what follows it is left over
(`SegmentHeader.readFrom_eq_ok_iff`), so that reading a file comes to a condition on its bytes
(`SegmentHeader.readFile_eq_ok_iff`).
-/

namespace SeviriImagery.SegmentHeader

open HeaderRecord

variable {file rest data : List UInt8} {h : SegmentHeader}

/-- A header that stands at the front of a file stands there still if only a front of the file is
looked at. -/
theorem isWritten_of_take {n : Nat} {primary : PrimaryHeader} {records : List HeaderRecord}
    (hwritten : IsWritten (file.take n) primary records) : IsWritten file primary records := by
  obtain ⟨⟨behind, hfront⟩, hrest⟩ := hwritten
  refine ⟨⟨behind ++ file.drop n, ?_⟩, hrest⟩
  calc file = file.take n ++ file.drop n := (List.take_append_drop n file).symm
    _ = _ := by rw [hfront, List.append_assoc, List.append_assoc]

/-- A header that a buffer gives is all there. -/
theorem headerLength_le_of_ofBytes (hread : ofBytes file = .ok h) :
    h.primary.headerLength.toNat ≤ file.length := by
  obtain ⟨records, ⟨⟨behind, hfile⟩, htotal, -⟩, -⟩ := isWritten_of_ofBytes hread
  rw [htotal, hfile, List.length_append, List.length_append, PrimaryHeader.length_bytes]
  omega

/-- A header that a buffer gives is read from a file of the same bytes. -/
theorem readFrom_of_ofBytes (hread : ofBytes file = .ok h) :
    readFrom file = .ok (h, file.drop h.primary.headerLength.toNat) := by
  obtain ⟨records, ⟨⟨behind, hfile⟩, htotal, hlimit, hwf⟩, hmeaning⟩ := isWritten_of_ofBytes hread
  have hlength : (h.primary.bytes ++ records.flatMap bytes).length =
      h.primary.headerLength.toNat := by
    rw [htotal, List.length_append, PrimaryHeader.length_bytes]
  rw [← List.append_assoc] at hfile
  rw [hfile, List.drop_left' hlength, readFrom_of_written h.primary hwf htotal hlimit behind,
    ← hmeaning]

/-- **Reading a file from its front gives what its bytes give together**: the same header, and the
bytes behind it. -/
theorem readFrom_eq_ok_iff :
    readFrom file = .ok (h, rest) ↔
      ofBytes file = .ok h ∧ rest = file.drop h.primary.headerLength.toNat := by
  constructor
  · intro hread
    have hfront : ∃ total, ofBytes (file.take total) = .ok h := by
      unfold readFrom at hread
      obtain ⟨-, hread⟩ := Outcome.guard_eq_ok_iff.mp hread
      obtain ⟨primary, -, hread⟩ := Outcome.bind_eq_ok_iff.mp hread
      obtain ⟨-, hread⟩ := Outcome.guard_eq_ok_iff.mp hread
      obtain ⟨header, hheader, hread⟩ := Outcome.bind_eq_ok_iff.mp hread
      cases hread
      exact ⟨_, hheader⟩
    obtain ⟨total, hheader⟩ := hfront
    obtain ⟨records, hwritten, hmeaning⟩ := isWritten_of_ofBytes hheader
    have hwhole : ofBytes file = .ok h := by
      rw [ofBytes_of_isWritten (isWritten_of_take hwritten), ← hmeaning]
    rw [readFrom_of_ofBytes hwhole] at hread
    cases hread
    exact ⟨hwhole, rfl⟩
  · intro hgiven
    obtain ⟨hread, rfl⟩ := hgiven
    exact readFrom_of_ofBytes hread

/-- What reading a data field can come to: it declares more bits than the image has, or there are
fewer bytes than it has, or it is there. -/
theorem readDataField_cases (h : SegmentHeader) (rest : List UInt8) :
    (∃ s, h.imageStructure = some s ∧ s.dataBits < h.primary.dataBits.toNat ∧
      h.readDataField rest = .error (.dataFieldTooLong h.primary.dataBits.toNat s.dataBits)) ∨
    (∀ s, h.imageStructure = some s → h.primary.dataBits.toNat ≤ s.dataBits) ∧
      (rest.length < h.primary.dataBytes ∧
          h.readDataField rest = .error (.unexpectedEnd rest.length) ∨
        h.primary.dataBytes ≤ rest.length ∧
          h.readDataField rest = .ok (rest.take h.primary.dataBytes)) := by
  have hbytes : ∀ {field : Except ParseError (List UInt8)},
      field = (if rest.length < h.primary.dataBytes then .error (.unexpectedEnd rest.length)
        else .ok (rest.take h.primary.dataBytes)) →
      rest.length < h.primary.dataBytes ∧ field = .error (.unexpectedEnd rest.length) ∨
        h.primary.dataBytes ≤ rest.length ∧ field = .ok (rest.take h.primary.dataBytes) := by
    intro field hfield
    by_cases hshort : rest.length < h.primary.dataBytes
    · rw [if_pos hshort] at hfield
      exact .inl ⟨hshort, hfield⟩
    · rw [if_neg hshort] at hfield
      exact .inr ⟨Nat.le_of_not_lt hshort, hfield⟩
  cases himage : h.imageStructure with
  | none =>
      refine .inr ⟨nofun, hbytes ?_⟩
      simp only [readDataField, himage]
  | some s =>
      by_cases hroom : s.dataBits < h.primary.dataBits.toNat
      · refine .inl ⟨s, rfl, hroom, ?_⟩
        simp only [readDataField, himage, if_pos hroom]
      · refine .inr ⟨?_, hbytes ?_⟩
        · intro s' hs'
          cases hs'
          exact Nat.le_of_not_lt hroom
        · simp only [readDataField, himage, if_neg hroom]

/-- A data field is read if the image has room for the bits declared and their bytes are there. -/
theorem readDataField_eq_ok_iff :
    h.readDataField rest = .ok data ↔
      (∀ s, h.imageStructure = some s → h.primary.dataBits.toNat ≤ s.dataBits) ∧
        h.primary.dataBytes ≤ rest.length ∧ data = rest.take h.primary.dataBytes := by
  rcases readDataField_cases h rest with ⟨s, hs, hless, hfield⟩ |
    ⟨hroom, ⟨hshort, hfield⟩ | ⟨hthere, hfield⟩⟩ <;> rw [hfield]
  · exact iff_of_false nofun fun hgiven => absurd (hgiven.1 s hs) (Nat.not_le_of_lt hless)
  · exact iff_of_false nofun fun hgiven => absurd hgiven.2.1 (Nat.not_le_of_lt hshort)
  · rw [Except.ok.injEq, eq_comm]
    exact ⟨fun hdata => ⟨hroom, hthere, hdata⟩, fun hgiven => hgiven.2.2⟩

/-- It is too long if the image has no room for these bits. -/
theorem readDataField_eq_tooLong_iff {declared room : Nat} :
    h.readDataField rest = .error (.dataFieldTooLong declared room) ↔
      declared = h.primary.dataBits.toNat ∧
        ∃ s, h.imageStructure = some s ∧ room = s.dataBits ∧ room < declared := by
  rcases readDataField_cases h rest with ⟨s, hs, hless, hfield⟩ |
    ⟨hroom, ⟨hshort, hfield⟩ | ⟨hthere, hfield⟩⟩ <;> rw [hfield]
  · simp only [Except.error.injEq, ParseError.dataFieldTooLong.injEq, hs, Option.some.injEq,
      exists_eq_left']
    constructor
    · rintro ⟨rfl, rfl⟩
      exact ⟨rfl, rfl, hless⟩
    · rintro ⟨rfl, rfl, -⟩
      exact ⟨rfl, rfl⟩
  all_goals
    refine iff_of_false nofun ?_
    rintro ⟨rfl, s, hs, rfl, hless⟩
    exact absurd (hroom s hs) (Nat.not_le_of_lt hless)

/-- It ends too early if the image has room and fewer bytes than these are there. -/
theorem readDataField_eq_unexpectedEnd_iff {found : Nat} :
    h.readDataField rest = .error (.unexpectedEnd found) ↔
      (∀ s, h.imageStructure = some s → h.primary.dataBits.toNat ≤ s.dataBits) ∧
        found = rest.length ∧ found < h.primary.dataBytes := by
  rcases readDataField_cases h rest with ⟨s, hs, hless, hfield⟩ |
    ⟨hroom, ⟨hshort, hfield⟩ | ⟨hthere, hfield⟩⟩ <;> rw [hfield]
  · exact iff_of_false nofun fun hgiven => absurd (hgiven.1 s hs) (Nat.not_le_of_lt hless)
  · rw [Except.error.injEq, ParseError.unexpectedEnd.injEq, eq_comm]
    constructor
    · rintro rfl
      exact ⟨hroom, rfl, hshort⟩
    · exact fun hgiven => hgiven.2.1
  · refine iff_of_false nofun ?_
    rintro ⟨-, rfl, hshort⟩
    exact absurd hthere (Nat.not_le_of_lt hshort)

/-- When a file is read, and what it gives. -/
theorem readFile_eq_ok_iff :
    readFile file = .ok (h, data) ↔
      ofBytes file = .ok h ∧
        (∀ s, h.imageStructure = some s → h.primary.dataBits.toNat ≤ s.dataBits) ∧
        h.primary.dataBytes ≤ (file.drop h.primary.headerLength.toNat).length ∧
        data = (file.drop h.primary.headerLength.toNat).take h.primary.dataBytes := by
  unfold readFile
  simp only [Outcome.bind_eq_ok_iff, Prod.exists]
  constructor
  · intro hread
    obtain ⟨header, rest, hfrom, field, hfield, hsame⟩ := hread
    cases hsame
    obtain ⟨hheader, rfl⟩ := readFrom_eq_ok_iff.mp hfrom
    exact ⟨hheader, readDataField_eq_ok_iff.mp hfield⟩
  · intro hgiven
    obtain ⟨hheader, hfield⟩ := hgiven
    exact ⟨h, _, readFrom_of_ofBytes hheader, data, readDataField_eq_ok_iff.mpr hfield, rfl⟩

end SeviriImagery.SegmentHeader
