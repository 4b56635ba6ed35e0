import TaggedBytecode.Container.Bytes

/-!
# Reading UTF-8

The bytes of a text are the bytes of its characters, one after the other, and its characters
are read back from them. What stray bytes are taken for makes no difference, since a text in
UTF-8 has none.

## Main results

* `Bytes.ofText_eq_flatMap` — the bytes of a text, character by character.
* `Bytes.length_ofText_le`, `Bytes.length_le_length_ofText` — a character takes one to four bytes.
* `Bytes.chars_ofText`, `Bytes.text?_ofText` — a text is read back.
* `Bytes.isPrefix_ofText_iff` — bytes begin with other bytes where the texts do.
-/

namespace TaggedBytecode.Bytes

theorem toList_loop (bytes : ByteArray) (i : Nat) (read : List UInt8) :
    ByteArray.toList.loop bytes i read = read.reverse ++ bytes.data.toList.drop i := by
  fun_induction ByteArray.toList.loop bytes i read with
  | case1 i read hlt ih =>
      have hlength : i < bytes.data.toList.length := by simpa using hlt
      rw [ih, List.drop_eq_getElem_cons hlength]
      simp [ByteArray.get!, hlt]
  | case2 i read hge =>
      have hlength : bytes.data.toList.length ≤ i := by simpa using hge
      rw [List.drop_eq_nil_of_le hlength, List.append_nil]

/-- The bytes of a text are those of its characters. -/
theorem ofText_eq_flatMap (s : String) :
    ofText s = s.toList.flatMap String.utf8EncodeChar := by
  rw [ofText, String.toUTF8_eq_toByteArray, ← String.utf8Encode_toList, ByteArray.toList,
    toList_loop, List.utf8Encode, List.toList_data_toByteArray]
  rfl

theorem length_utf8EncodeChar_le (c : Char) : (String.utf8EncodeChar c).length ≤ 4 := by
  rw [String.length_utf8EncodeChar]
  exact c.utf8Size_le_four

/-- A text has at most four bytes for each of its characters. -/
theorem length_ofText_le (s : String) : (ofText s).length ≤ 4 * s.toList.length := by
  rw [ofText_eq_flatMap]
  induction s.toList with
  | nil => exact Nat.le_refl _
  | cons c cs ih =>
      have := length_utf8EncodeChar_le c
      rw [List.flatMap_cons, List.length_append, List.length_cons]
      omega

/-- A text has at least one byte for each of its characters. -/
theorem length_le_length_ofText (s : String) : s.toList.length ≤ (ofText s).length := by
  rw [ofText_eq_flatMap]
  induction s.toList with
  | nil => exact Nat.le_refl _
  | cons c cs ih =>
      have : 0 < (String.utf8EncodeChar c).length :=
        List.length_pos_iff.mpr String.utf8EncodeChar_ne_nil
      rw [List.flatMap_cons, List.length_append, List.length_cons]
      omega

/-- A character is read from the front of any bytes that start with its own. -/
theorem decodeChar_append (c : Char) (rest : List UInt8) :
    ByteArray.utf8DecodeChar? ⟨((String.utf8EncodeChar c ++ rest).take 4).toArray⟩ 0 = some c := by
  rw [List.take_append, List.take_of_length_le (length_utf8EncodeChar_le c),
    ← List.data_toByteArray, List.toByteArray_append]
  exact ByteArray.utf8DecodeChar?_utf8EncodeChar_append

/-- The characters of a text are read back from its bytes. Induction on the characters; each of
them has a byte at least, so that the fuel lasts. -/
theorem charsFrom_flatMap (stray cs : List Char) {fuel : Nat} (hfuel : cs.length ≤ fuel) :
    charsFrom stray fuel (cs.flatMap String.utf8EncodeChar) = cs := by
  induction cs generalizing fuel with
  | nil => cases fuel <;> rfl
  | cons c cs ih =>
      obtain ⟨fuel, rfl⟩ := Nat.exists_eq_add_of_le' (Nat.le_trans (Nat.succ_pos _) hfuel)
      have hread := decodeChar_append c (cs.flatMap String.utf8EncodeChar)
      have hdrop : (String.utf8EncodeChar c ++ cs.flatMap String.utf8EncodeChar).drop c.utf8Size =
          cs.flatMap String.utf8EncodeChar :=
        List.drop_left' (String.length_utf8EncodeChar c)
      rw [List.flatMap_cons]
      cases hbytes : String.utf8EncodeChar c ++ cs.flatMap String.utf8EncodeChar with
      | nil =>
          exact absurd (List.append_eq_nil_iff.mp hbytes).1 String.utf8EncodeChar_ne_nil
      | cons b rest =>
          rw [hbytes] at hread hdrop
          simp only [charsFrom, hread, hdrop, ih (Nat.le_of_succ_le_succ hfuel)]

/-- **The characters of a text are read back from its bytes.** -/
theorem chars_ofText (stray : List Char) (s : String) : chars stray (ofText s) = s.toList := by
  have hlength := length_le_length_ofText s
  rw [ofText_eq_flatMap] at hlength
  rw [chars, ofText_eq_flatMap, charsFrom_flatMap stray s.toList hlength]

/-- A text is read back from its bytes. -/
theorem text?_ofText (s : String) : text? (ofText s) = some s := by
  have hbytes : (⟨(ofText s).toArray⟩ : ByteArray) = s.toByteArray := by
    rw [ofText, String.toUTF8_eq_toByteArray, ByteArray.toList, toList_loop, List.reverse_nil,
      List.nil_append, List.drop_zero, Array.toArray_toList]
  rw [text?, hbytes, String.fromUTF8?, dif_pos s.isValidUTF8]
  rfl

/-- The first characters of two texts agree where their bytes do. -/
theorem eq_of_utf8EncodeChar_append {c d : Char} {rest rest' : List UInt8}
    (h : String.utf8EncodeChar c ++ rest = String.utf8EncodeChar d ++ rest') : c = d := by
  have hc := decodeChar_append c rest
  rw [h, decodeChar_append d rest'] at hc
  exact (Option.some.inj hc).symm

/-- The bytes of a text begin with those of another just if the texts do. Induction on the
shorter text, character by character, since the bytes of no character begin those of another. -/
theorem isPrefix_ofText_iff {s t : String} : ofText s <+: ofText t ↔ s.toList <+: t.toList := by
  rw [ofText_eq_flatMap, ofText_eq_flatMap]
  generalize t.toList = ds
  induction s.toList generalizing ds with
  | nil => simp
  | cons c cs ih =>
      cases ds with
      | nil => simp
      | cons d ds =>
          rw [List.flatMap_cons, List.flatMap_cons, List.cons_prefix_cons, ← ih]
          constructor
          · rintro ⟨rest, hrest⟩
            rw [List.append_assoc] at hrest
            obtain rfl := eq_of_utf8EncodeChar_append hrest
            exact ⟨rfl, rest, List.append_cancel_left hrest⟩
          · rintro ⟨rfl, hbegins⟩
            exact List.prefix_append_right_inj _ |>.mpr hbegins

end TaggedBytecode.Bytes
