import Mathlib
import SeviriImagery.Header.Reader

/-!
# Text of one byte a character

A text all of whose characters are ASCII is written with one byte for each of them, and each of
these bytes is a whole character to a reader.  So such a text is read as it was written
(`Text.decode_map`), and what fills up its field is told apart from it if its last character is
no filling itself (`Text.textField_encode_append`).
-/

namespace SeviriImagery.Text

/-- Every character of a text is ASCII. -/
def IsAscii (text : String) : Prop := ∀ c ∈ text.toList, c.toNat < 0x80

/-- The characters that fill up a field of text. -/
def isFilling (c : Char) : Bool := c == Char.ofNat 0 || c == ' '

/-- The bytes of an array as a list. -/
theorem toList_eq_data (bytes : ByteArray) : bytes.toList = bytes.data.toList := by
  have hloop : ∀ (i : Nat) (done : List UInt8),
      ByteArray.toList.loop bytes i done = done.reverse ++ bytes.data.toList.drop i := by
    intro i done
    fun_induction ByteArray.toList.loop bytes i done with
    | case1 i done hmore ih =>
        have hi : i < bytes.data.toList.length := hmore
        rw [ih, List.drop_eq_getElem_cons hi, List.reverse_cons, List.append_assoc]
        simp [ByteArray.get!, getElem!_pos, hmore]
    | case2 i done hend =>
        have hi : bytes.data.toList.length ≤ i := Nat.not_lt.mp hend
        rw [List.drop_eq_nil_of_le hi, List.append_nil]
  rw [ByteArray.toList, hloop]
  rfl

/-- A text of ASCII characters has a byte for each of them. -/
theorem encode_eq {text : String} (hascii : IsAscii text) :
    encode text = text.toList.map fun c => UInt8.ofNat c.toNat := by
  have hbytes : encode text = text.toList.flatMap String.utf8EncodeChar := by
    rw [encode, toList_eq_data, String.toUTF8_eq_toByteArray, ← String.ofList_toList (s := text),
      String.toByteArray_ofList, List.utf8Encode, List.toList_data_toByteArray, String.toList_ofList]
  rw [hbytes, List.map_eq_flatMap]
  refine List.flatMap_congr fun c hc => ?_
  have hsmall : c.val.toNat ≤ 0x7f := Nat.le_of_lt_succ (hascii c hc)
  rw [String.utf8EncodeChar, if_pos hsmall]
  rfl

/-- Bytes of ASCII characters are read one by one. -/
theorem foldl_step {chars : List Char} (hascii : ∀ c ∈ chars, c.toNat < 0x80) (done : List Char) :
    (chars.map fun c => UInt8.ofNat c.toNat).foldl Utf8State.step ⟨done, none⟩ =
      ⟨chars.reverse ++ done, none⟩ := by
  induction chars generalizing done with
  | nil => rfl
  | cons c chars ih =>
      have hc : c.toNat < 0x80 := hascii c List.mem_cons_self
      have hbyte : (UInt8.ofNat c.toNat).toNat = c.toNat := by
        rw [UInt8.toNat_ofNat', Nat.mod_eq_of_lt (by omega)]
      have hlead : Lead.ofByte c.toNat = .whole c := by
        rw [Lead.ofByte, if_pos hc, Char.ofNat_toNat]
      have hstep : Utf8State.step ⟨done, none⟩ (UInt8.ofNat c.toNat) = ⟨c :: done, none⟩ := by
        simp only [Utf8State.step, hbyte, Utf8State.lead, hlead]
      rw [List.map_cons, List.foldl_cons, hstep,
        ih fun d hd => hascii d (List.mem_cons_of_mem c hd),
        List.reverse_cons, List.append_assoc, List.singleton_append]

/-- A text of ASCII characters is read as it was written. -/
theorem decode_map {chars : List Char} (hascii : ∀ c ∈ chars, c.toNat < 0x80) :
    decode (chars.map fun c => UInt8.ofNat c.toNat) = chars := by
  rw [decode, foldl_step hascii, Utf8State.finish, List.append_nil, List.reverse_reverse]

/-- Filling behind a text that does not end in filling is taken off, and nothing else. -/
theorem trimEndWhere_append {drop : Char → Bool} {chars filling : List Char}
    (hend : ∀ c, chars.getLast? = some c → drop c = false) (hfilling : ∀ c ∈ filling, drop c) :
    trimEndWhere drop (chars ++ filling) = chars := by
  have hback : ∀ c ∈ filling.reverse, drop c := fun c hc => hfilling c (List.mem_reverse.mp hc)
  have hkept : chars.reverse.dropWhile drop = chars.reverse := by
    cases hreverse : chars.reverse with
    | nil => rfl
    | cons c rest =>
        have hlast : drop c = false :=
          hend c (by rw [List.getLast?_eq_head?_reverse, hreverse]; rfl)
        rw [List.dropWhile_cons_of_neg (by simp [hlast])]
  rw [trimEndWhere, List.reverse_append, List.dropWhile_append_of_pos hback, hkept,
    List.reverse_reverse]

/-- A text that can be told apart from the filling behind it. -/
structure IsFieldText (text : String) : Prop where
  ascii : IsAscii text
  last : ∀ c, text.toList.getLast? = some c → isFilling c = false

/-- A text is read from its field, however many blanks fill up the field behind it. -/
theorem textField_encode_append {text : String} (htext : IsFieldText text) (blanks : Nat) :
    textField (encode text ++ List.replicate blanks 0x20) = text := by
  have hblanks : List.replicate blanks (0x20 : UInt8) =
      (List.replicate blanks ' ').map fun c => UInt8.ofNat c.toNat := by
    rw [List.map_replicate]
    rfl
  have hascii : ∀ c ∈ text.toList ++ List.replicate blanks ' ', c.toNat < 0x80 := by
    intro c hc
    rcases List.mem_append.mp hc with hc | hc
    · exact htext.ascii c hc
    · rw [List.eq_of_mem_replicate hc]
      decide
  have hfilling : ∀ c ∈ List.replicate blanks ' ', isFilling c := by
    intro c hc
    rw [List.eq_of_mem_replicate hc]
    rfl
  rw [textField, encode_eq htext.ascii, hblanks, ← List.map_append, decode_map hascii]
  show String.ofList (trimEndWhere isFilling _) = text
  rw [trimEndWhere_append htext.last hfilling, String.ofList_toList]

end SeviriImagery.Text
