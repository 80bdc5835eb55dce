import SeviriImagery.Proofs.Header.Grammar

/-!
# Where a header is read

A reader of header records goes round a loop: it looks at the kind and the length of a record,
then at the record, then at the fields that it knows in it, and goes on behind the record.
`HeaderCursor.turn` is one round of it over a buffer with offsets, and notes every slice of the
buffer that it looks at; `SegmentHeader.scan` goes on from the primary header for as many turns as
the buffer has bytes.

The scan comes to an end, and it comes to the result of the reader (`scan_result`).  A slice that
it takes lies in the buffer (`isInside_of_mem_scan`), because a record is looked at only when its
length was found good, and its fields only when it is long enough for its kind.  These slices are
all that the reader uses: a turn is the same for the same fields (`HeaderCursor.turn_congr`), and a
header for the same slices (`SegmentHeader.ofBytes_congr`).
-/

namespace SeviriImagery

/-- The bytes of a buffer from `start` up to `stop`. -/
structure Slice where
  start : Nat
  stop : Nat
deriving DecidableEq

namespace Slice

/-- What a slice of a buffer holds. -/
def bytes (s : Slice) (buffer : List UInt8) : List UInt8 :=
  (buffer.drop s.start).take (s.stop - s.start)

/-- A slice lies in a buffer of `size` bytes. -/
def IsInside (s : Slice) (size : Nat) : Prop := s.start ≤ s.stop ∧ s.stop ≤ size

/-- A slice of a record, as a slice of the buffer in which the record begins at `offset`. -/
def shift (offset : Nat) (s : Slice) : Slice := ⟨offset + s.start, offset + s.stop⟩

/-- What lies in a record lies in the buffer, if the record does. -/
theorem isInside_shift {s : Slice} {offset length size : Nat} (hs : s.IsInside length)
    (hrecord : offset + length ≤ size) : (s.shift offset).IsInside size :=
  ⟨Nat.add_le_add_left hs.1 offset, Nat.le_trans (Nat.add_le_add_left hs.2 offset) hrecord⟩

/-- A slice of a record has the same bytes in the buffer in which the record stands. -/
theorem bytes_shift {s : Slice} {offset length : Nat} (hs : s.IsInside length)
    (buffer : List UInt8) :
    (s.shift offset).bytes buffer = s.bytes ((⟨offset, offset + length⟩ : Slice).bytes buffer) := by
  have hstop : min (s.stop - s.start) (length - s.start) = s.stop - s.start := by
    unfold IsInside at hs
    omega
  simp only [shift, bytes, Nat.add_sub_cancel_left, Nat.add_sub_add_left]
  rw [List.drop_take, List.take_take, hstop, List.drop_drop]

/-- A record is its kind and its length, and what follows them. -/
theorem bytes_front_append {offset length : Nat} (hlength : 3 ≤ length) (buffer : List UInt8) :
    (⟨offset, offset + 3⟩ : Slice).bytes buffer ++
        ((⟨offset, offset + length⟩ : Slice).bytes buffer).drop 3 =
      (⟨offset, offset + length⟩ : Slice).bytes buffer := by
  have hfront : (⟨offset, offset + 3⟩ : Slice).bytes buffer =
      ((⟨offset, offset + length⟩ : Slice).bytes buffer).take 3 := by
    simp only [bytes, Nat.add_sub_cancel_left]
    rw [List.take_take, Nat.min_eq_left hlength]
  rw [hfront, List.take_append_drop]

/-- Buffers with the same byte at a place, as a slice, have the same byte there. -/
theorem byte_congr {a b : List UInt8} {start : Nat}
    (hsame : (⟨start, start + 1⟩ : Slice).bytes a = (⟨start, start + 1⟩ : Slice).bytes b) :
    Word.byte a start = Word.byte b start := by
  simp only [bytes, Nat.add_sub_cancel_left] at hsame
  rw [Word.byte_eq_take, hsame, ← Word.byte_eq_take]

/-- Buffers with the same slice have the same word there. -/
theorem field_congr {a b : List UInt8} {start : Nat} (width : Nat)
    (hsame : (⟨start, start + width⟩ : Slice).bytes a = (⟨start, start + width⟩ : Slice).bytes b) :
    Word.field a start width = Word.field b start width := by
  simp only [bytes, Nat.add_sub_cancel_left] at hsame
  rw [Word.field, hsame, ← Word.field]

end Slice

/-- The fields of a record of a kind, counted from its first byte. -/
def RecordKind.fields (length : Nat) : RecordKind → List Slice
  | .imageStructure => [⟨3, 4⟩, ⟨4, 6⟩, ⟨6, 8⟩, ⟨8, 9⟩]
  | .imageNavigation => [⟨3, 35⟩, ⟨35, 39⟩, ⟨39, 43⟩, ⟨43, 47⟩, ⟨47, 51⟩]
  | .annotationText => [⟨3, length⟩]
  | .timeStamp => [⟨4, 6⟩, ⟨6, 10⟩]
  | .segmentIdentification => [⟨3, 5⟩, ⟨5, 6⟩, ⟨6, 8⟩, ⟨8, 10⟩, ⟨10, 12⟩, ⟨12, 13⟩]

/-- The fields of a primary header. -/
def PrimaryHeader.fields : List Slice := [⟨0, 1⟩, ⟨1, 3⟩, ⟨3, 4⟩, ⟨4, 8⟩, ⟨8, 16⟩]

/-- The fields that a reader knows in a record. -/
def knownFields (kind : UInt8) (length : Nat) : List Slice :=
  (RecordKind.ofNumber? kind).elim [] (RecordKind.fields length)

/-- The fields of a record lie in it, if it is as long as its kind demands. -/
theorem RecordKind.isInside_of_mem_fields {k : RecordKind} {length : Nat}
    (hlength : k.leastLength ≤ length) : ∀ s ∈ k.fields length, s.IsInside length := by
  cases k <;> simp only [RecordKind.leastLength] at hlength <;>
    simp [RecordKind.fields, Slice.IsInside] <;> omega

/-- A slice of a record behind its kind and its length, as one of its body. -/
theorem Slice.bytes_append {front body : List UInt8} (hfront : front.length = 3) (start stop : Nat) :
    (⟨3 + start, 3 + stop⟩ : Slice).bytes (front ++ body) = (⟨start, stop⟩ : Slice).bytes body := by
  rw [Slice.bytes, ← List.drop_drop, ← hfront, List.drop_left, hfront, Nat.add_sub_add_left]
  rfl

/-- Nothing in a record matters but the fields that a reader knows in it. -/
theorem SegmentHeader.withRecord_congr {h : SegmentHeader} {k : RecordKind} {length : Nat}
    {front a b : List UInt8} (hfront : front.length = 3) (ha : length = a.length + 3)
    (hb : length = b.length + 3)
    (hfields : ∀ s ∈ k.fields length, s.bytes (front ++ a) = s.bytes (front ++ b)) :
    h.withRecord k a = h.withRecord k b := by
  have hfield : ∀ start stop, ⟨3 + start, 3 + stop⟩ ∈ k.fields length →
      (⟨start, stop⟩ : Slice).bytes a = (⟨start, stop⟩ : Slice).bytes b := by
    intro start stop hmem
    rw [← Slice.bytes_append hfront start stop, ← Slice.bytes_append hfront start stop]
    exact hfields _ hmem
  have hbyte : ∀ start, ⟨3 + start, 3 + (start + 1)⟩ ∈ k.fields length →
      Word.byte a start = Word.byte b start :=
    fun start hmem => Slice.byte_congr (hfield start (start + 1) hmem)
  have hword : ∀ start width, ⟨3 + start, 3 + (start + width)⟩ ∈ k.fields length →
      Word.field a start width = Word.field b start width :=
    fun start width hmem => Slice.field_congr width (hfield start (start + width) hmem)
  cases k with
  | imageStructure =>
      simp only [withRecord, ImageStructure.ofBody, Word.uint16]
      rw [hbyte 0 (by simp [RecordKind.fields]), hword 1 2 (by simp [RecordKind.fields]),
        hword 3 2 (by simp [RecordKind.fields]), hbyte 5 (by simp [RecordKind.fields])]
  | imageNavigation =>
      have hname := hfield 0 32 (by simp [RecordKind.fields])
      simp only [Slice.bytes, List.drop_zero, Nat.sub_zero] at hname
      simp only [withRecord, ImageNavigation.ofBody, Word.int32, Word.uint32, projectionLength]
      rw [hname, hword 32 4 (by simp [RecordKind.fields]), hword (32 + 4) 4 (by simp [RecordKind.fields]),
        hword (32 + 8) 4 (by simp [RecordKind.fields]), hword (32 + 12) 4 (by simp [RecordKind.fields])]
  | annotationText =>
      have htext := hfield 0 a.length (by simp [RecordKind.fields]; omega)
      have hlength : b.length = a.length := by omega
      simp only [Slice.bytes, List.drop_zero, Nat.sub_zero, List.take_length] at htext
      rw [← hlength, List.take_length] at htext
      rw [htext]
  | timeStamp =>
      simp only [withRecord, TimeStamp.ofBody, Word.uint16, Word.uint32]
      rw [hword 1 2 (by simp [RecordKind.fields]), hword 3 4 (by simp [RecordKind.fields])]
  | segmentIdentification =>
      simp only [withRecord, SegmentIdentification.ofBody, Word.uint16]
      rw [hword 0 2 (by simp [RecordKind.fields]), hbyte 2 (by simp [RecordKind.fields]),
        hword 3 2 (by simp [RecordKind.fields]), hword 5 2 (by simp [RecordKind.fields]),
        hword 7 2 (by simp [RecordKind.fields]), hbyte 9 (by simp [RecordKind.fields])]

/-- A record is added in the same way if its known fields are the same, where it is added at all. -/
theorem SegmentHeader.addRecord_congr {h : SegmentHeader} {kind : UInt8} {length : Nat}
    {front a b : List UInt8} (hfront : front.length = 3) (ha : length = a.length + 3)
    (hb : length = b.length + 3)
    (hfields : ∀ next, h.addRecord kind length a = .ok next →
      ∀ s ∈ knownFields kind length, s.IsInside length →
        s.bytes (front ++ a) = s.bytes (front ++ b)) :
    h.addRecord kind length a = h.addRecord kind length b := by
  unfold addRecord at hfields ⊢
  by_cases hzero : kind = 0
  · rw [if_pos hzero, if_pos hzero]
  rw [if_neg hzero, if_neg hzero]
  simp only [if_neg hzero] at hfields
  unfold knownFields at hfields
  cases hkind : RecordKind.ofNumber? kind with
  | none => rfl
  | some k =>
      simp only [hkind, Option.elim] at hfields
      by_cases hshort : length < k.leastLength
      · simp only [if_pos hshort]
      · simp only [if_neg hshort] at hfields ⊢
        have hinside := k.isInside_of_mem_fields (Nat.not_lt.mp hshort)
        rw [withRecord_congr hfront ha hb fun s hs => hfields _ rfl s hs (hinside s hs)]

/-- Where a reader of header records stands, and what it has read. -/
structure HeaderCursor where
  offset : Nat
  header : SegmentHeader

/-- What a turn comes to: the next one, or an end. -/
inductive HeaderTurn where
  | goOn (next : HeaderCursor)
  | halt (result : Except ParseError SegmentHeader)

namespace HeaderCursor

/-- One turn of the reader, with the slices that it takes. -/
def turn (buffer : List UInt8) (total : Nat) (c : HeaderCursor) : List Slice × HeaderTurn :=
  if c.offset < total then
    if buffer.length < c.offset + 3 then ([], .halt (.error (.unexpectedEnd buffer.length)))
    else
      let front : Slice := ⟨c.offset, c.offset + 3⟩
      let kind := Word.byte (front.bytes buffer) 0
      let length := Word.field (front.bytes buffer) 1 2
      if length < 3 ∨ total < c.offset + length then
        ([front], .halt (.error (.invalidRecordLength kind length)))
      else
        let record : Slice := ⟨c.offset, c.offset + length⟩
        match c.header.addRecord kind length ((record.bytes buffer).drop 3) with
        | .error e => ([front, record], .halt (.error e))
        | .ok next =>
            (front :: record :: (knownFields kind length).map (Slice.shift c.offset),
              .goOn ⟨c.offset + length, next⟩)
  else if c.offset ≠ total then ([], .halt (.error (.headerLengthMismatch total c.offset)))
  else ([], .halt (.ok c.header))

/-- The turns of the reader, `limit` of them at most; without a result if these do not suffice. -/
def turns (buffer : List UInt8) (total : Nat) : (limit : Nat) → HeaderCursor →
    List Slice × Option (Except ParseError SegmentHeader)
  | 0, _ => ([], none)
  | limit + 1, c =>
      match c.turn buffer total with
      | (slices, .halt result) => (slices, some result)
      | (slices, .goOn next) =>
          let (more, result) := turns buffer total limit next
          (slices ++ more, result)

end HeaderCursor

namespace SegmentHeader

/-- The reading of a header by turns, with the slices that it takes; there are as many turns as the
buffer has bytes. -/
def scan (buffer : List UInt8) : List Slice × Option (Except ParseError SegmentHeader) :=
  let front := if buffer.length < primaryLength then [] else PrimaryHeader.fields
  match PrimaryHeader.ofBytes buffer with
  | .error e => (front, some (.error e))
  | .ok primary =>
      let total := primary.headerLength.toNat
      if buffer.length < total then (front, some (.error (.unexpectedEnd buffer.length)))
      else
        let (slices, result) :=
          HeaderCursor.turns buffer total buffer.length ⟨primaryLength, .ofPrimary primary⟩
        (front ++ slices, result)

end SegmentHeader

namespace HeaderCursor

/-- The first bytes of a record in a buffer: where they are, the reader finds its kind and its
length. -/
theorem exists_front {buffer : List UInt8} {offset : Nat} (hin : offset + 3 ≤ buffer.length) :
    ∃ kind high low tail, buffer.drop offset = kind :: high :: low :: tail ∧
      Word.byte ((⟨offset, offset + 3⟩ : Slice).bytes buffer) 0 = kind ∧
      Word.field ((⟨offset, offset + 3⟩ : Slice).bytes buffer) 1 2 = Word.ofBytes [high, low] := by
  have hlength : 3 ≤ (buffer.drop offset).length := by rw [List.length_drop]; omega
  unfold Slice.bytes
  rw [Nat.add_sub_cancel_left]
  match hdrop : buffer.drop offset, hlength with
  | kind :: high :: low :: tail, _ => exact ⟨kind, high, low, tail, rfl, rfl, rfl⟩

/-- The turns come to the result of the reader, if a third of the bytes to read are fewer. -/
theorem turns_result {buffer : List UInt8} {total limit : Nat} {c : HeaderCursor}
    (hlimit : (total - c.offset) / 3 < limit) :
    (c.turns buffer total limit).2 = some (SegmentHeader.addRecords buffer.length total c.offset
      (buffer.drop c.offset) c.header) := by
  induction limit generalizing c with
  | zero => omega
  | succ limit ih =>
      unfold turns turn SegmentHeader.addRecords
      by_cases hlt : c.offset < total
      · rw [if_pos hlt, if_pos hlt]
        by_cases hin : buffer.length < c.offset + 3
        · have hshort : (buffer.drop c.offset).length < 3 := by rw [List.length_drop]; omega
          rw [if_pos hin]
          match hdrop : buffer.drop c.offset, hshort with
          | [], _ => rfl
          | [_], _ => rfl
          | [_, _], _ => rfl
        · rw [if_neg hin]
          obtain ⟨kind, high, low, tail, hdrop, hkind, hdigits⟩ := exists_front (Nat.not_lt.mp hin)
          simp only [hkind, hdigits, hdrop]
          by_cases hgood : Word.ofBytes [high, low] < 3 ∨ total < c.offset + Word.ofBytes [high, low]
          · simp only [if_pos hgood]
          · obtain ⟨body, hbody⟩ : ∃ n, Word.ofBytes [high, low] = n + 3 :=
              ⟨Word.ofBytes [high, low] - 3, by omega⟩
            have hrecord : ((⟨c.offset, c.offset + (body + 3)⟩ : Slice).bytes buffer).drop 3 =
                tail.take body := by
              rw [Slice.bytes, Nat.add_sub_cancel_left, hdrop]
              rfl
            have hrest : buffer.drop (c.offset + (body + 3)) = tail.drop body := by
              rw [← List.drop_drop, hdrop]
              rfl
            rw [hbody] at hgood
            simp only [hbody, if_neg hgood, hrecord, Nat.add_sub_cancel]
            cases hadd : c.header.addRecord kind (body + 3) (tail.take body) with
            | error e => rfl
            | ok next =>
                have hnext := ih (c := ⟨c.offset + (body + 3), next⟩) (by simp only; omega)
                rwa [hrest] at hnext
      · rw [if_neg hlt, if_neg hlt]
        by_cases heq : c.offset ≠ total
        · rw [if_pos heq, if_pos heq]
        · rw [if_neg heq, if_neg heq]

/-- **A turn depends on nothing but the fields that it knows**, whatever else stands in the record,
which is the second slice that it takes. -/
theorem turn_congr {a b : List UInt8} {total : Nat} (hsize : a.length = b.length)
    (htotal : total ≤ a.length) (c : HeaderCursor)
    (hsame : ∀ s ∈ (c.turn a total).1.eraseIdx 1, s.bytes a = s.bytes b) :
    c.turn a total = c.turn b total := by
  unfold turn at hsame ⊢
  by_cases hlt : c.offset < total
  swap
  · rw [if_neg hlt, if_neg hlt]
  by_cases hin : a.length < c.offset + 3
  · rw [if_pos hlt, if_pos hlt, if_pos hin, if_pos (hsize ▸ hin), hsize]
  rw [if_pos hlt, if_neg hin] at hsame
  rw [if_pos hlt, if_pos hlt, if_neg hin, if_neg (show ¬b.length < c.offset + 3 by omega)]
  have hfront : (⟨c.offset, c.offset + 3⟩ : Slice).bytes a =
      (⟨c.offset, c.offset + 3⟩ : Slice).bytes b := by
    refine hsame _ ?_
    simp only
    split
    · exact List.mem_cons_self
    · split <;> exact List.mem_cons_self
  simp only at hsame ⊢
  rw [← hfront]
  generalize hkind : Word.byte ((⟨c.offset, c.offset + 3⟩ : Slice).bytes a) 0 = kind at hsame ⊢
  generalize hlength : Word.field ((⟨c.offset, c.offset + 3⟩ : Slice).bytes a) 1 2 = length
    at hsame ⊢
  by_cases hbad : length < 3 ∨ total < c.offset + length
  · simp only [if_pos hbad]
  simp only [if_neg hbad] at hsame ⊢
  have hbody (buffer : List UInt8) (hlong : total ≤ buffer.length) :
      length = (((⟨c.offset, c.offset + length⟩ : Slice).bytes buffer).drop 3).length + 3 := by
    simp only [Slice.bytes, List.length_drop, List.length_take]
    omega
  have hadd : c.header.addRecord kind length
        (((⟨c.offset, c.offset + length⟩ : Slice).bytes a).drop 3) =
      c.header.addRecord kind length
        (((⟨c.offset, c.offset + length⟩ : Slice).bytes b).drop 3) := by
    refine @SegmentHeader.addRecord_congr c.header kind length
      ((⟨c.offset, c.offset + 3⟩ : Slice).bytes a) _ _ ?_ (hbody a htotal)
      (hbody b (hsize ▸ htotal)) ?_
    · simp only [Slice.bytes, List.length_take, List.length_drop]
      omega
    · intro next hadd s hs hinside
      simp only [hadd] at hsame
      have hshift := hsame (s.shift c.offset)
        (List.mem_cons_of_mem _ (List.mem_map_of_mem hs))
      rw [Slice.bytes_shift hinside, Slice.bytes_shift hinside] at hshift
      rw [Slice.bytes_front_append (by omega), hshift, hfront, Slice.bytes_front_append (by omega)]
  rw [hadd]

/-- The slices of a turn lie in the buffer. -/
theorem isInside_of_mem_turn {buffer : List UInt8} {total : Nat} (htotal : total ≤ buffer.length)
    (c : HeaderCursor) : ∀ s ∈ (c.turn buffer total).1, s.IsInside buffer.length := by
  unfold turn
  by_cases hlt : c.offset < total
  · rw [if_pos hlt]
    by_cases hin : buffer.length < c.offset + 3
    · rw [if_pos hin]
      simp
    · have hfront : (⟨c.offset, c.offset + 3⟩ : Slice).IsInside buffer.length :=
        ⟨Nat.le_add_right _ _, Nat.not_lt.mp hin⟩
      rw [if_neg hin]
      simp only
      split
      · simpa using hfront
      · rename_i hgood
        have hrecord := Nat.le_trans (Nat.not_lt.mp (not_or.mp hgood).2) htotal
        split
        · simp only [List.forall_mem_cons]
          exact ⟨hfront, ⟨Nat.le_add_right _ _, hrecord⟩, by simp⟩
        · rename_i next hadd
          simp only [List.forall_mem_cons, List.forall_mem_map]
          refine ⟨hfront, ⟨Nat.le_add_right _ _, hrecord⟩, ?_⟩
          intro s hs
          refine Slice.isInside_shift ?_ hrecord
          unfold knownFields at hs
          cases hk : RecordKind.ofNumber? _ with
          | none => rw [hk] at hs; cases hs
          | some k =>
              rw [hk] at hs
              exact k.isInside_of_mem_fields (SegmentHeader.leastLength_le_of_addRecord hk hadd) s hs
  · rw [if_neg hlt]
    split <;> simp

/-- The slices of all turns lie in the buffer. -/
theorem isInside_of_mem_turns {buffer : List UInt8} {total : Nat} (htotal : total ≤ buffer.length)
    (limit : Nat) (c : HeaderCursor) :
    ∀ s ∈ (c.turns buffer total limit).1, s.IsInside buffer.length := by
  induction limit generalizing c with
  | zero => simp [turns]
  | succ limit ih =>
      have hturn := isInside_of_mem_turn htotal c
      unfold turns
      split
      · rename_i slices result heq
        rwa [heq] at hturn
      · rename_i slices next heq
        rw [heq] at hturn
        intro s hs
        rcases List.mem_append.mp hs with hs | hs
        · exact hturn s hs
        · exact ih next s hs

/-- The turns depend on nothing but the slices that they take. -/
theorem turns_congr {a b : List UInt8} {total : Nat} (hsize : a.length = b.length)
    (htotal : total ≤ a.length) (limit : Nat) (c : HeaderCursor)
    (hsame : ∀ s ∈ (c.turns a total limit).1, s.bytes a = s.bytes b) :
    c.turns a total limit = c.turns b total limit := by
  induction limit generalizing c with
  | zero => rfl
  | succ limit ih =>
      have hslices : ∀ s ∈ (c.turn a total).1, s ∈ (c.turns a total (limit + 1)).1 := by
        intro s hs
        unfold turns
        split
        · rename_i slices result heq
          rwa [heq] at hs
        · rename_i slices next heq
          rw [heq] at hs
          exact List.mem_append_left _ hs
      have hturn := turn_congr hsize htotal c fun s hs =>
        hsame s (hslices s (List.mem_of_mem_eraseIdx hs))
      unfold turns at hsame ⊢
      rw [← hturn]
      split at hsame
      · rfl
      · rename_i slices next heq
        rw [ih next fun s hs => hsame s (List.mem_append_right _ hs)]

end HeaderCursor

/-- A primary header depends on nothing but its fields. -/
theorem PrimaryHeader.ofBytes_congr {a b : List UInt8} (hsize : a.length = b.length)
    (hsame : primaryLength ≤ a.length → ∀ s ∈ fields, s.bytes a = s.bytes b) :
    ofBytes a = ofBytes b := by
  unfold ofBytes
  by_cases hshort : a.length < primaryLength
  · simp only [if_pos (hsize ▸ hshort), hsize]
  · have hfields := hsame (Nat.not_lt.mp hshort)
    simp only [fields, List.forall_mem_cons] at hfields
    obtain ⟨hkind, hlength, htype, htotal, hdata, -⟩ := hfields
    have hheader : Word.uint32 a 4 = Word.uint32 b 4 :=
      congrArg UInt32.ofNat (Slice.field_congr 4 htotal)
    have hbits : Word.uint64 a 8 = Word.uint64 b 8 :=
      congrArg UInt64.ofNat (Slice.field_congr 8 hdata)
    rw [Slice.byte_congr hkind, Slice.byte_congr htype, Slice.field_congr 2 hlength, hheader, hbits,
      hsize]

namespace SegmentHeader

/-- **A header depends on nothing but the slices that its scan takes.**  Two buffers of one size
with the same bytes in them are scanned alike. -/
theorem scan_congr {a b : List UInt8} (hsize : a.length = b.length)
    (hsame : ∀ s ∈ (scan a).1, s.bytes a = s.bytes b) : scan a = scan b := by
  have hslices : primaryLength ≤ a.length → ∀ s ∈ PrimaryHeader.fields, s ∈ (scan a).1 := by
    intro hlong s hs
    unfold scan
    rw [if_neg (Nat.not_lt.mpr hlong)]
    cases PrimaryHeader.ofBytes a with
    | error e => exact hs
    | ok primary =>
        simp only
        split
        · exact hs
        · exact List.mem_append_left _ hs
  have hprimary := PrimaryHeader.ofBytes_congr hsize fun hlong s hs => hsame s (hslices hlong s hs)
  unfold scan at hsame ⊢
  rw [← hprimary, ← hsize]
  cases hread : PrimaryHeader.ofBytes a with
  | error e => rfl
  | ok primary =>
      simp only [hread] at hsame ⊢
      by_cases hlong : a.length < primary.headerLength.toNat
      · simp only [if_pos hlong]
      · simp only [if_neg hlong] at hsame ⊢
        rw [HeaderCursor.turns_congr hsize (Nat.not_lt.mp hlong) _ _ fun s hs =>
          hsame s (List.mem_append_right _ hs)]

/-- The scan of a header comes to an end, and its result is that of the reader. -/
theorem scan_result (buffer : List UInt8) :
    (scan buffer).2 = some (SegmentHeader.ofBytes buffer) := by
  unfold scan SegmentHeader.ofBytes
  cases hprimary : PrimaryHeader.ofBytes buffer with
  | error e => rfl
  | ok primary =>
      show (if buffer.length < primary.headerLength.toNat then _ else _ : List Slice × _).2 =
        some (if buffer.length < primary.headerLength.toNat then Except.error _ else _)
      by_cases hlong : buffer.length < primary.headerLength.toNat
      · rw [if_pos hlong, if_pos hlong]
      · rw [if_neg hlong, if_neg hlong]
        refine HeaderCursor.turns_result ?_
        have := (PrimaryHeader.bytes_of_ofBytes hprimary).2.1
        simp only [primaryLength] at this ⊢
        omega

/-- What stands outside the slices that the scan takes makes no difference to the header. -/
theorem ofBytes_congr {a b : List UInt8} (hsize : a.length = b.length)
    (hsame : ∀ s ∈ (scan a).1, s.bytes a = s.bytes b) :
    SegmentHeader.ofBytes a = SegmentHeader.ofBytes b := by
  have hresult := congrArg Prod.snd (scan_congr hsize hsame)
  rwa [scan_result, scan_result, Option.some.injEq] at hresult

/-- Every slice that the scan of a header takes lies in the buffer. -/
theorem isInside_of_mem_scan (buffer : List UInt8) :
    ∀ s ∈ (scan buffer).1, s.IsInside buffer.length := by
  have hfront : ∀ s ∈ (if buffer.length < primaryLength then [] else PrimaryHeader.fields),
      s.IsInside buffer.length := by
    by_cases hshort : buffer.length < primaryLength
    · simp [hshort]
    · simp only [primaryLength] at hshort
      simp [hshort, primaryLength, PrimaryHeader.fields, Slice.IsInside]
      omega
  unfold scan
  cases hprimary : PrimaryHeader.ofBytes buffer with
  | error e => exact hfront
  | ok primary =>
      simp only
      by_cases hlong : buffer.length < primary.headerLength.toNat
      · rw [if_pos hlong]
        exact hfront
      · rw [if_neg hlong]
        intro s hs
        rcases List.mem_append.mp hs with hs | hs
        · exact hfront s hs
        · exact HeaderCursor.isInside_of_mem_turns (Nat.not_lt.mp hlong) _ _ s hs

/-- A record that is refused is refused for its length. -/
theorem error_of_addRecord {h : SegmentHeader} {kind : UInt8} {length : Nat} {body : List UInt8}
    {e : ParseError} (hadd : h.addRecord kind length body = .error e) :
    e = .invalidRecordLength kind length := by
  unfold addRecord at hadd
  split at hadd
  · rename_i hkind
    cases hadd
    rw [hkind]
  · split at hadd
    · cases hadd
    · split at hadd
      · cases hadd
        rfl
      · cases hadd

/-- The loop over the records ends where they end: it goes behind the total nowhere. -/
theorem addRecords_ne_mismatch {size total offset declared actual : Nat} {rest : List UInt8}
    {h : SegmentHeader} (hle : offset ≤ total) :
    addRecords size total offset rest h ≠ .error (.headerLengthMismatch declared actual) := by
  fun_induction addRecords size total offset rest h with
  | case1 => intro heq; cases heq
  | case2 _ _ _ _ _ _ _ _ _ e hadd =>
      intro heq
      rw [error_of_addRecord hadd] at heq
      cases heq
  | case3 _ _ _ _ _ _ _ length hgood _ _ ih => exact ih (by omega)
  | case4 => intro heq; cases heq
  | case5 offset _ _ hlt hne => exact absurd (Nat.le_antisymm hle (Nat.not_lt.mp hlt)) hne
  | case6 => intro heq; cases heq

/-- A header whose length does not agree with its records is one that leaves no room for the primary
one. -/
theorem lt_of_ofBytes_mismatch {buffer : List UInt8} {declared actual : Nat}
    (hread : SegmentHeader.ofBytes buffer = .error (.headerLengthMismatch declared actual)) :
    declared < primaryLength ∧ actual = primaryLength := by
  unfold SegmentHeader.ofBytes at hread
  cases hprimary : PrimaryHeader.ofBytes buffer with
  | error e =>
      rw [hprimary] at hread
      cases hread
      unfold PrimaryHeader.ofBytes at hprimary
      simp only at hprimary
      split at hprimary
      · cases hprimary
      split at hprimary
      · cases hprimary
      split at hprimary
      · cases hprimary
      split at hprimary
      · rename_i hshort
        cases hprimary
        exact ⟨hshort, rfl⟩
      split at hprimary <;> cases hprimary
  | ok primary =>
      rw [hprimary] at hread
      change (if buffer.length < primary.headerLength.toNat then Except.error _ else
        addRecords buffer.length primary.headerLength.toNat primaryLength
          (buffer.drop primaryLength) (.ofPrimary primary)) = _ at hread
      split at hread
      · cases hread
      · exact absurd hread
          (addRecords_ne_mismatch (PrimaryHeader.bytes_of_ofBytes hprimary).2.2.1)

/-- **The grammar of header records.**  A buffer is accepted exactly if a header stands written at
its start, and then each kind of record counts by its last one.  Whatever the buffer holds, the
scan comes to an end with the same result, looks at nothing outside the buffer, and never finds at
its end that the records fall short of the total or go beyond it. -/
theorem ofBytes_accepts_written_headers (buffer : List UInt8) :
    (∀ h, SegmentHeader.ofBytes buffer = .ok h ↔
      ∃ records, IsWritten buffer h.primary records ∧ h = ofRecords h.primary records) ∧
    (scan buffer).2 = some (SegmentHeader.ofBytes buffer) ∧
    (∀ s ∈ (scan buffer).1, s.IsInside buffer.length) ∧
    ∀ declared actual,
      SegmentHeader.ofBytes buffer = .error (.headerLengthMismatch declared actual) →
        declared < primaryLength ∧ actual = primaryLength := by
  refine ⟨?_, scan_result buffer, isInside_of_mem_scan buffer, ?_⟩
  · intro h
    constructor
    · exact isWritten_of_ofBytes
    · intro hgiven
      obtain ⟨records, hwritten, hheader⟩ := hgiven
      rw [hheader]
      exact ofBytes_of_isWritten hwritten
  · intro declared actual hread
    exact lt_of_ofBytes_mismatch hread

end SegmentHeader

end SeviriImagery
