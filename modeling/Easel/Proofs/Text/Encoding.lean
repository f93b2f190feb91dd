import Easel.Proofs.Text.Joining
import Easel.Text.ByteSource

/-!
# Lines of a text and of its bytes

A text may be cut into lines before it is written as UTF-8, or its bytes afterwards. Both ways give
the same lines, because the two characters that make up line endings are one byte each, and these
bytes occur in no other character.

* `Text.utf8` — the bytes of a text;
* `Text.decode_utf8` — bytes are read as the text whose bytes they are;
* `Text.splitLines_utf8`, `Text.lines_utf8` — the lines of a text and of its bytes.
-/

namespace Easel.Text

/-- The bytes of a text in UTF-8, which is how a source holds it. -/
def utf8 (text : String) : List UInt8 := text.toUTF8.data.toList

/-- Bytes that are UTF-8: those of some text. -/
def IsText (bytes : List UInt8) : Prop := ∃ text, utf8 text = bytes

/-- The bytes of some characters. -/
def encode (chars : List Char) : List UInt8 := chars.flatMap String.utf8EncodeChar

/-- No characters have no bytes. -/
theorem encode_nil : encode [] = [] := rfl

/-- The bytes of the first character come first. -/
theorem encode_cons (c : Char) (chars : List Char) :
    encode (c :: chars) = String.utf8EncodeChar c ++ encode chars := rfl

/-- The bytes of a text are those of its characters. -/
theorem utf8_eq_encode (text : String) : utf8 text = encode text.toList := by
  rw [utf8, String.toUTF8_eq_toByteArray, ← String.utf8Encode_toList, List.utf8Encode,
    List.toList_data_toByteArray]
  rfl

/-- Characters that are made into a text keep their bytes. -/
theorem utf8_ofList (chars : List Char) : utf8 (String.ofList chars) = encode chars := by
  rw [utf8_eq_encode, String.toList_ofList]

/-- The bytes of joined texts are the bytes of one and then of the other. -/
@[simp] theorem utf8_append (text later : String) :
    utf8 (text ++ later) = utf8 text ++ utf8 later := by
  rw [utf8_eq_encode, utf8_eq_encode, utf8_eq_encode, String.toList_append, encode,
    List.flatMap_append]
  rfl

/-- The bytes of a text are UTF-8. -/
theorem isText_utf8 (text : String) : IsText (utf8 text) := ⟨text, rfl⟩

/-- Bytes that are UTF-8 may be put behind one another. Each part is read as it would be alone. -/
theorem IsText.append {bytes later : List UInt8} (h : IsText bytes) (hlater : IsText later) :
    IsText (bytes ++ later) := by
  obtain ⟨text, rfl⟩ := h
  obtain ⟨last, rfl⟩ := hlater
  exact ⟨text ++ last, utf8_append text last⟩

/-- Bytes are read as the text whose bytes they are. -/
theorem decode_utf8 (text : String) : decode (utf8 text) = .ok text := by
  have hbytes : ByteArray.mk (utf8 text).toArray = text.toByteArray := by
    rw [utf8, Array.toArray_toList, String.toUTF8_eq_toByteArray]
  rw [decode, hbytes, String.fromUTF8?, dif_pos text.isValidUTF8]
  rfl

/-- Bytes that are no text are refused. -/
theorem decode_of_not_isText {bytes : List UInt8} (h : ¬ IsText bytes) :
    decode bytes = .error .invalidText := by
  have hinvalid : ¬ (ByteArray.mk bytes.toArray).IsValidUTF8 := by
    -- Valid bytes are those of some characters, and so of a text.
    rintro ⟨chars, hchars⟩
    refine h ⟨String.ofList chars, ?_⟩
    rw [utf8, String.toUTF8_eq_toByteArray, String.toByteArray_ofList, ← hchars]
  rw [decode, String.fromUTF8?, dif_neg hinvalid]

/-! ### Line endings -/

/-- A byte below 128 is a character of its own, and no part of another one. This is what makes it
safe to look for line endings in the bytes. -/
theorem toNat_eq_of_mem_utf8EncodeChar {byte : UInt8} {c : Char}
    (h : byte ∈ String.utf8EncodeChar c) (hbyte : byte.toNat < 128) : byte.toNat = c.toNat := by
  have hc : c.val.toNat = c.toNat := rfl
  unfold String.utf8EncodeChar at h
  dsimp only at h
  split at h
  · obtain rfl := List.mem_singleton.mp h
    rw [hc, UInt8.toNat_ofNat']
    omega
  · -- All bytes of a longer sequence have their highest bit set.
    exfalso
    split at h
    · simp only [List.mem_cons, List.not_mem_nil, or_false] at h
      rcases h with rfl | rfl <;> rw [UInt8.toNat_ofNat'] at hbyte <;> omega
    · split at h
      · simp only [List.mem_cons, List.not_mem_nil, or_false] at h
        rcases h with rfl | rfl | rfl <;> rw [UInt8.toNat_ofNat'] at hbyte <;> omega
      · simp only [List.mem_cons, List.not_mem_nil, or_false] at h
        rcases h with rfl | rfl | rfl | rfl <;> rw [UInt8.toNat_ofNat'] at hbyte <;> omega

/-- A line feed is found in the bytes of no other character. -/
theorem lineFeed_notMem_utf8EncodeChar {c : Char} (h : c ≠ '\n') :
    10 ∉ String.utf8EncodeChar c := fun hmem =>
  h (Char.toNat_inj.mp (toNat_eq_of_mem_utf8EncodeChar hmem (by decide)).symm)

/-- A carriage return is found in the bytes of no other character. -/
theorem return_notMem_utf8EncodeChar {c : Char} (h : c ≠ '\r') :
    13 ∉ String.utf8EncodeChar c := fun hmem =>
  h (Char.toNat_inj.mp (toNat_eq_of_mem_utf8EncodeChar hmem (by decide)).symm)

/-- The bytes of characters that have been passed, last byte first. -/
theorem reverse_encode_cons (last : Char) (before : List Char) :
    (encode (last :: before).reverse).reverse =
      (String.utf8EncodeChar last).reverse ++ (encode before.reverse).reverse := by
  rw [encode, List.reverse_cons, List.flatMap_append, List.flatMap_singleton, List.reverse_append]
  rfl

/-- One carriage return is dropped from the bytes if one is dropped from the text. The last byte of
a line is a carriage return only if its last character is one. -/
theorem dropReturn_encode (passed : List Char) :
    dropReturn 13 (encode passed.reverse).reverse =
      (encode (dropReturn '\r' passed).reverse).reverse := by
  cases passed with
  | nil => rfl
  | cons last before =>
    rw [reverse_encode_cons, dropReturn]
    split
    · next hlast =>
      rw [hlast]
      rfl
    · next hlast =>
      rw [reverse_encode_cons]
      -- The last byte of any other character is no carriage return.
      obtain ⟨byte, bytes, hbytes⟩ := List.exists_cons_of_ne_nil
        (List.reverse_ne_nil_iff.mpr (String.utf8EncodeChar_ne_nil (c := last)))
      have hbyte : byte ≠ 13 := by
        rintro rfl
        refine return_notMem_utf8EncodeChar hlast (List.mem_reverse.mp ?_)
        rw [hbytes]
        exact List.mem_cons_self
      rw [hbytes]
      exact if_neg hbyte

/-- Symbols that are no line feed are content. They are passed all at once, as the bytes of one
character are. -/
theorem splitLinesFrom_append_of_notMem {α : Type} [DecidableEq α] {lineFeed : α}
    (carriageReturn : α) {front : List α} (h : lineFeed ∉ front) (passed rest : List α) :
    splitLinesFrom lineFeed carriageReturn passed (front ++ rest) =
      splitLinesFrom lineFeed carriageReturn (front.reverse ++ passed) rest := by
  induction front generalizing passed with
  | nil => rfl
  | cons first later ih =>
    rw [List.cons_append, splitLinesFrom, if_neg (List.ne_of_not_mem_cons h).symm,
      ih (List.not_mem_of_not_mem_cons h), List.reverse_cons, List.append_assoc]
    rfl

/-- A line of a text as a line of its bytes. -/
def Line.encode (line : Line Char) : Line UInt8 := ⟨Text.encode line.content, line.terminated⟩

/-- Cutting the bytes and cutting the characters go on alike from places that correspond. -/
theorem splitLinesFrom_encode (passed chars : List Char) :
    splitLinesFrom 10 13 (encode passed.reverse).reverse (encode chars) =
      (splitLinesFrom '\n' '\r' passed chars).map Line.encode := by
  induction chars generalizing passed with
  | nil =>
    cases passed with
    | nil => rfl
    | cons last before =>
      have hne : (encode (last :: before).reverse).reverse ≠ [] := by
        rw [reverse_encode_cons]
        simp
      rw [encode_nil, splitLinesFrom, splitLinesFrom, if_neg (by simpa using hne),
        List.reverse_reverse]
      rfl
  | cons c rest ih =>
    rw [encode_cons, splitLinesFrom]
    split
    · next hc =>
      rw [hc]
      -- The byte of the line feed ends the line of bytes where the character ends that of the text.
      show splitLinesFrom 10 13 _ (10 :: encode rest) = _
      rw [splitLinesFrom, if_pos rfl, dropReturn_encode, List.reverse_reverse, List.map_cons, ← ih]
      rfl
    · next hc =>
      -- All bytes of another character are content, and are passed together.
      rw [splitLinesFrom_append_of_notMem 13 (lineFeed_notMem_utf8EncodeChar hc),
        ← reverse_encode_cons]
      exact ih (c :: passed)

/-- The lines of the bytes are the bytes of the lines. -/
theorem splitLines_utf8 (text : String) :
    splitLines 10 13 (utf8 text) = (splitLines '\n' '\r' text.toList).map Line.encode := by
  rw [utf8_eq_encode]
  exact splitLinesFrom_encode [] text.toList

/-- **A text and its bytes have the same lines.** Each line of the bytes is UTF-8 again, and is read
as the line of the text. -/
theorem lines_utf8 (text : String) :
    ByteSource.lines ⟨utf8 text, none⟩ = (lines text).map .ok := by
  show ((splitLines 10 13 (utf8 text)).map fun line => decode line.content) = _
  rw [splitLines_utf8, lines, List.map_map, List.map_map]
  refine List.map_congr_left fun line _ => ?_
  show decode (encode line.content) = _
  rw [← utf8_ofList, decode_utf8]
  rfl

example : (ByteSource.lines ⟨utf8 "é\r\n\r\r\n\n→\r", none⟩).map Except.toOption =
    [some "é", some "\r", some "", some "→\r"] := by
  decide +kernel

end Easel.Text
