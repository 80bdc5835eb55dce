import SeviriImagery.Proofs.Segment.File

/-!
# Segments that come as a stream

A segment need not be at hand as a whole.  From a stream the first sixteen bytes are taken, then as
many as they say the header has, and all of them are read again as a header; what is read there ends
with the header, not with the file.  `ByteStream` is a computation that takes bytes so, and its
state is what the stream still holds.

A stream cannot be told from its bytes: it gives the header that they give, goes on at the byte
behind it, and gives the data field that is there (`ByteStream.header_run`,
`ByteStream.dataField_result`).  The lengths are counted in words of 64 bits and no count of them
wraps around, whatever number of bits is declared (`PrimaryHeader.toNat_dataBytesWord`,
`ImageStructure.toNat_dataBitsWord`).
-/

namespace SeviriImagery

/-- The length of the data field in whole bytes, as a machine of 64 bits computes it. -/
def PrimaryHeader.dataBytesWord (h : PrimaryHeader) : UInt64 :=
  h.dataBits / 8 + if h.dataBits % 8 = 0 then 0 else 1

/-- The bits that the samples of a segment take, as a machine of 64 bits computes them. -/
def ImageStructure.dataBitsWord (s : ImageStructure) : UInt64 :=
  s.columns.toUInt64 * s.lines.toUInt64 * s.bitsPerPixel.toUInt64

/-- No length of a data field is too great for its bytes to be counted. -/
theorem PrimaryHeader.toNat_dataBytesWord (h : PrimaryHeader) :
    h.dataBytesWord.toNat = h.dataBytes := by
  have hword := h.dataBits.toNat_lt
  have hrest : h.dataBits % 8 = 0 ↔ h.dataBits.toNat % 8 = 0 := by
    rw [← UInt64.toNat_inj, UInt64.toNat_mod]
    rfl
  unfold dataBytesWord dataBytes
  rw [UInt64.toNat_add, UInt64.toNat_div]
  by_cases hwhole : h.dataBits.toNat % 8 = 0
  · rw [if_pos (hrest.mpr hwhole)]
    show (h.dataBits.toNat / 8 + 0) % 2 ^ 64 = _
    omega
  · rw [if_neg (mt hrest.mp hwhole)]
    show (h.dataBits.toNat / 8 + 1) % 2 ^ 64 = _
    omega

/-- No segment has more bits than 64 bits can count. -/
theorem ImageStructure.toNat_dataBitsWord (s : ImageStructure) :
    s.dataBitsWord.toNat = s.dataBits := by
  have hpixels : s.columns.toNat * s.lines.toNat < 2 ^ 16 * 2 ^ 16 :=
    Nat.mul_lt_mul'' s.columns.toNat_lt s.lines.toNat_lt
  have hbits : s.columns.toNat * s.lines.toNat * s.bitsPerPixel.toNat < 2 ^ 16 * 2 ^ 16 * 2 ^ 8 :=
    Nat.mul_lt_mul'' hpixels s.bitsPerPixel.toNat_lt
  unfold dataBitsWord dataBits
  rw [UInt64.toNat_mul, UInt64.toNat_mul, UInt16.toNat_toUInt64, UInt16.toNat_toUInt64,
    UInt8.toNat_toUInt64, Nat.mod_eq_of_lt (show s.columns.toNat * s.lines.toNat < 2 ^ 64 by omega),
    Nat.mod_eq_of_lt (by omega)]

/-- A computation that takes bytes off the front of a stream.  One that fails leaves the stream
where it has come to. -/
abbrev ByteStream (α : Type) := ExceptT ParseError (StateM (List UInt8)) α

namespace ByteStream

/-- The next bytes, as many as are asked for if there are so many. -/
def upTo (length : Nat) : ByteStream (List UInt8) := do
  let bytes ← get
  set (bytes.drop length)
  return bytes.take length

/-- The next bytes, as many as are asked for. -/
def exactly (length : Nat) : ByteStream (List UInt8) := do
  let bytes ← upTo length
  if bytes.length < length then throw (.read .short)
  return bytes

/-- The header records that come next.  The first one says how long the others are. -/
def header : ByteStream SegmentHeader := do
  let front ← exactly primaryLength
  let primary ← ofExcept (PrimaryHeader.ofBytes front)
  let others ← exactly (primary.headerLength - 16).toNat
  ofExcept (SegmentHeader.ofBytes (front ++ others))

/-- The data field that comes behind the header records. -/
def dataField (h : SegmentHeader) : ByteStream (List UInt8) := do
  if let some s := h.imageStructure then
    if s.dataBitsWord < h.primary.dataBits then
      throw (.dataFieldTooLong h.primary.dataBits.toNat s.dataBitsWord.toNat)
  let bytes ← upTo h.primary.dataBytesWord.toNat
  if bytes.length < h.primary.dataBytesWord.toNat then throw (.unexpectedEnd bytes.length)
  return bytes

/-- What is there is taken, and no more. -/
theorem upTo_run (length : Nat) (bytes : List UInt8) :
    (upTo length).run bytes = (.ok (bytes.take length), bytes.drop length) := rfl

/-- What was asked for is there, or reading ends. -/
theorem exactly_run (length : Nat) (bytes : List UInt8) :
    (exactly length).run bytes =
      if bytes.length < length then (.error (.read .short), bytes.drop length)
      else (.ok (bytes.take length), bytes.drop length) := by
  rw [exactly, Outcome.run_bind, upTo_run]
  simp only [List.length_take]
  split
  · rw [if_pos (by omega)]
    rfl
  · rw [if_neg (by omega)]
    rfl

/-- **A stream gives the header that its bytes give when they are all there.**  Behind it the stream
goes on with what follows the header. -/
theorem header_run (file : List UInt8) :
    ∃ left, header.run file =
      match SegmentHeader.readFrom file with
      | .ok (h, rest) => (.ok h, rest)
      | .error e => (.error e, left) := by
  unfold SegmentHeader.readFrom
  rw [header, Outcome.run_bind, exactly_run]
  by_cases hfront : file.length < primaryLength
  · rw [if_pos hfront, if_pos hfront]
    exact ⟨_, rfl⟩
  rw [if_neg hfront, if_neg hfront]
  simp only [Outcome.run_ofExcept_bind]
  cases hprimary : PrimaryHeader.ofBytes (file.take primaryLength) with
  | error e => exact ⟨_, rfl⟩
  | ok primary =>
      obtain ⟨-, -, hleast, -⟩ := PrimaryHeader.bytes_of_ofBytes hprimary
      have hothers : (primary.headerLength - 16).toNat =
          primary.headerLength.toNat - primaryLength := UInt32.toNat_sub_of_le _ _ hleast
      have hwhole : file.take primaryLength ++
          (file.drop primaryLength).take (primary.headerLength.toNat - primaryLength) =
            file.take primary.headerLength.toNat := by
        rw [← List.take_add, Nat.add_sub_cancel' hleast]
      have hbehind : (file.drop primaryLength).drop (primary.headerLength.toNat - primaryLength) =
          file.drop primary.headerLength.toNat := by
        rw [List.drop_drop, Nat.add_sub_cancel' hleast]
      simp only [Outcome.run_bind, exactly_run, hothers, hbehind, List.length_drop]
      by_cases htotal : file.length < primary.headerLength.toNat
      · rw [if_pos (by omega)]
        simp only [Outcome.ok_bind, if_pos htotal]
        exact ⟨_, rfl⟩
      · rw [if_neg (by omega)]
        simp only [Outcome.ok_bind, if_neg htotal, hwhole]
        cases SegmentHeader.ofBytes (file.take primary.headerLength.toNat) with
        | error e => exact ⟨_, rfl⟩
        | ok h => exact ⟨[], rfl⟩

/-- What a stream goes on with behind its header gives the data field. -/
theorem dataField_result (h : SegmentHeader) (rest : List UInt8) :
    ((dataField h).run rest).1 = h.readDataField rest := by
  have hfield : ((do
      let bytes ← upTo h.primary.dataBytesWord.toNat
      if bytes.length < h.primary.dataBytesWord.toNat then throw (.unexpectedEnd bytes.length)
      return bytes : ByteStream (List UInt8)).run rest).1 =
        if rest.length < h.primary.dataBytes then .error (.unexpectedEnd rest.length)
        else .ok (rest.take h.primary.dataBytes) := by
    rw [Outcome.run_bind, upTo_run, PrimaryHeader.toNat_dataBytesWord]
    simp only [List.length_take]
    by_cases hthere : rest.length < h.primary.dataBytes
    · rw [if_pos (by omega), if_pos hthere, Nat.min_eq_right (by omega)]
      rfl
    · rw [if_neg (by omega), if_neg hthere]
      rfl
  unfold dataField SegmentHeader.readDataField
  cases h.imageStructure with
  | none => exact hfield
  | some s =>
      simp only [UInt64.lt_iff_toNat_lt, ImageStructure.toNat_dataBitsWord]
      by_cases hroom : s.dataBits < h.primary.dataBits.toNat
      · rw [if_pos hroom, if_pos hroom]
        rfl
      · rw [if_neg hroom, if_neg hroom]
        exact hfield

/-- A header comes out of a stream if it is read from the bytes. -/
theorem header_eq_ok_iff {file : List UInt8} {h : SegmentHeader} :
    (header.run file).1 = .ok h ↔ SegmentHeader.ofBytes file = .ok h := by
  obtain ⟨left, hrun⟩ := header_run file
  rw [hrun]
  constructor
  · intro hread
    cases hfrom : SegmentHeader.readFrom file with
    | error e =>
        rw [hfrom] at hread
        cases hread
    | ok parts =>
        rw [hfrom] at hread
        cases hread
        exact (SegmentHeader.readFrom_eq_ok_iff.mp hfrom).1
  · intro hread
    rw [SegmentHeader.readFrom_of_ofBytes hread]

/-- What is left in a stream behind its header. -/
theorem header_behind {file : List UInt8} {h : SegmentHeader}
    (hread : SegmentHeader.ofBytes file = .ok h) :
    (header.run file).2 = file.drop h.primary.headerLength.toNat := by
  obtain ⟨left, hrun⟩ := header_run file
  rw [hrun, SegmentHeader.readFrom_of_ofBytes hread]

/-- **A segment is read from a stream as from its bytes.**  A stream gives a header if its bytes do,
and the same one.  The data field is refused as too long if the image has no room for the bits
declared; else it ends too early if fewer bytes follow the header than those bits take; and else it
is those bytes. -/
theorem stream_reads_as_buffer (file : List UInt8) (h : SegmentHeader) :
    ((header.run file).1 = .ok h ↔ SegmentHeader.ofBytes file = .ok h) ∧
    (SegmentHeader.ofBytes file = .ok h →
      let field := ((dataField h).run (header.run file).2).1
      let start := h.primary.headerLength.toNat
      let declared := h.primary.dataBits.toNat
      let length := (declared + 7) / 8
      let room (s : ImageStructure) := s.columns.toNat * s.lines.toNat * s.bitsPerPixel.toNat
      let isTooLong := ∃ s, h.imageStructure = some s ∧ room s < declared
      start ≤ file.length ∧
      (∀ bits allowed, field = .error (.dataFieldTooLong bits allowed) ↔
        bits = declared ∧ ∃ s, h.imageStructure = some s ∧ allowed = room s ∧ room s < declared) ∧
      (∀ found, field = .error (.unexpectedEnd found) ↔
        ¬isTooLong ∧ found = file.length - start ∧ file.length - start < length) ∧
      (∀ data, field = .ok data ↔
        ¬isTooLong ∧ length ≤ file.length - start ∧ data = (file.drop start).take length)) := by
  refine ⟨header_eq_ok_iff, fun hread => ?_⟩
  intro field start declared length room isTooLong
  have hfield : field = h.readDataField (file.drop start) := by
    rw [← header_behind hread, ← dataField_result]
  have hroom : (∀ s, h.imageStructure = some s → declared ≤ s.dataBits) ↔ ¬isTooLong := by
    simp only [isTooLong, not_exists, not_and, not_lt]
    exact Iff.rfl
  refine ⟨?_, fun bits allowed => ?_, fun found => ?_, fun data => ?_⟩
  · exact SegmentHeader.headerLength_le_of_ofBytes hread
  · rw [hfield, SegmentHeader.readDataField_eq_tooLong_iff]
    constructor
    · rintro ⟨rfl, s, hs, rfl, hless⟩
      exact ⟨rfl, s, hs, rfl, hless⟩
    · rintro ⟨rfl, s, hs, rfl, hless⟩
      exact ⟨rfl, s, hs, rfl, hless⟩
  · rw [hfield, SegmentHeader.readDataField_eq_unexpectedEnd_iff, hroom, List.length_drop]
    constructor
    · rintro ⟨hfits, rfl, hless⟩
      exact ⟨hfits, rfl, hless⟩
    · rintro ⟨hfits, rfl, hless⟩
      exact ⟨hfits, rfl, hless⟩
  · rw [hfield, SegmentHeader.readDataField_eq_ok_iff, hroom, List.length_drop]
    rfl

/-- The primary header of a segment of two pixels that declares some bits. -/
def twoPixelsDeclared (bits : UInt64) : PrimaryHeader := ⟨imageFile, 89, bits⟩

theorem ofBytes_twoPixelsDeclared (bits : UInt64) (behind : List UInt8) :
    SegmentHeader.ofBytes ((twoPixelsDeclared bits).bytes ++
        (SegmentSource.twoPixelRecords.flatMap HeaderRecord.bytes ++ behind)) =
      .ok (SegmentHeader.ofRecords (twoPixelsDeclared bits) SegmentSource.twoPixelRecords) :=
  SegmentHeader.ofBytes_of_isWritten (SegmentSource.isWritten_twoPixels _ rfl behind)

/-- A segment of twenty bits is read from three bytes, ends too early with two of them, and is not
read if it declares all bits that can be declared. -/
theorem stream_of_twoPixels :
    let file (bits : UInt64) (behind : List UInt8) := (twoPixelsDeclared bits).bytes ++
      (SegmentSource.twoPixelRecords.flatMap HeaderRecord.bytes ++ behind)
    let h (bits : UInt64) :=
      SegmentHeader.ofRecords (twoPixelsDeclared bits) SegmentSource.twoPixelRecords
    let field (bits : UInt64) (behind : List UInt8) :=
      ((dataField (h bits)).run (header.run (file bits behind)).2).1
    field 20 [0xff, 0xc0, 0x10, 0x55] = .ok [0xff, 0xc0, 0x10] ∧
      field 20 [0xff, 0xc0] = .error (.unexpectedEnd 2) ∧
      field 0xffffffffffffffff [0xff, 0xc0, 0x10] =
        .error (.dataFieldTooLong 0xffffffffffffffff 20) := by
  intro file h field
  have hbehind (bits : UInt64) (behind : List UInt8) :
      (file bits behind).length - (h bits).primary.headerLength.toNat = behind.length ∧
        (file bits behind).drop (h bits).primary.headerLength.toNat = behind := by
    have hfront : ((twoPixelsDeclared bits).bytes ++
        SegmentSource.twoPixelRecords.flatMap HeaderRecord.bytes).length = 89 := rfl
    have htotal : (h bits).primary.headerLength.toNat = 89 := rfl
    have hfile : file bits behind = ((twoPixelsDeclared bits).bytes ++
        SegmentSource.twoPixelRecords.flatMap HeaderRecord.bytes) ++ behind :=
      (List.append_assoc _ _ _).symm
    rw [htotal, hfile, List.length_append, hfront, Nat.add_sub_cancel_left]
    exact ⟨rfl, List.drop_left' hfront⟩
  have hfits : ¬∃ s, (h 20).imageStructure = some s ∧
      s.columns.toNat * s.lines.toNat * s.bitsPerPixel.toNat <
        (h 20).primary.dataBits.toNat := by
    rintro ⟨s, hs, hless⟩
    cases hs
    revert hless
    decide
  have hread (bits : UInt64) (behind : List UInt8) :=
    (stream_reads_as_buffer (file bits behind) (h bits)).2 (ofBytes_twoPixelsDeclared bits behind)
  refine ⟨?_, ?_, ?_⟩
  · apply ((hread 20 _).2.2.2 _).mpr
    rw [(hbehind _ _).1, (hbehind _ _).2]
    exact ⟨hfits, by decide, by decide⟩
  · apply ((hread 20 _).2.2.1 _).mpr
    rw [(hbehind _ _).1]
    exact ⟨hfits, rfl, by decide⟩
  · apply ((hread _ _).2.1 _ _).mpr
    exact ⟨rfl, _, rfl, rfl, by decide⟩

end ByteStream

end SeviriImagery
