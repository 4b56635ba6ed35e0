import TaggedBytecode.Proofs.Stream.Decoding

/-!
# Encoding and Decoding

Where the radix does not exceed the base, encoding spells every slot by the one numeral that has
its bits as its value. So decoding gives back what was encoded, and encoding gives back every
stream whose numerals have values that fit a slot.

## Main results

* `Alphabet.decode_encode` — decoding undoes encoding.
* `Alphabet.encode_decode` — encoding undoes decoding, unless a value does not fit a slot.
-/

namespace TaggedBytecode

namespace Alphabet

variable {a : Alphabet}

/-- The spelling of a slot. -/
theorem exists_spelling (h : a.radix ≤ a.base) (v : Int32) :
    ∃ n : a.Numeral, n.value = v.toUInt32.toNat ∧ a.spell v.toUInt32.toNat = n.spelling := by
  obtain ⟨n, hn⟩ := exists_value_eq h v.toUInt32.toNat
  exact ⟨n, hn, hn ▸ n.spell_value h⟩

/-- What slots are spelled by are numerals of which they are the slots. -/
theorem exists_numerals_of_slots (h : a.radix ≤ a.base) (slots : List Int32) :
    ∃ numerals : List a.Numeral, numerals.map Numeral.slot = slots ∧
      slots.flatMap (fun v => a.spell v.toUInt32.toNat) =
        numerals.flatMap Numeral.spelling := by
  induction slots with
  | nil => exact ⟨[], rfl, rfl⟩
  | cons v slots ih =>
      obtain ⟨n, hvalue, hspell⟩ := exists_spelling h v
      obtain ⟨numerals, hslots, hspelled⟩ := ih
      refine ⟨n :: numerals, ?_, ?_⟩
      · rw [List.map_cons, Numeral.slot_eq hvalue, hslots]
      · rw [List.flatMap_cons, List.flatMap_cons, hspell, hspelled]

theorem encode_eq_ok (h : a.radix ≤ a.base) (slots : List Int32) :
    a.encode slots =
      .ok (String.ofList (slots.flatMap fun v => a.spell v.toUInt32.toNat)) := by
  rw [encode, if_neg (Nat.not_lt_of_le h)]

/-- **Decoding undoes encoding.** Slots are refused just if the radix exceeds the base. If it
does not, they have an encoding, and decoding it gives them back. -/
theorem decode_encode (a : Alphabet) (slots : List Int32) :
    ((∃ fault, a.encode slots = .error fault) ↔ a.base < a.radix) ∧
      (a.radix ≤ a.base → ∃ text, a.encode slots = .ok text ∧ a.decode text = .ok slots) := by
  refine ⟨⟨fun ⟨fault, h⟩ => ?_, fun h => ?_⟩, fun h => ?_⟩
  · by_contra hradix
    rw [encode_eq_ok (Nat.le_of_not_lt hradix)] at h
    cases h
  · exact ⟨_, if_pos h⟩
  · obtain ⟨numerals, hslots, hspelled⟩ := exists_numerals_of_slots h slots
    have htext : numerals.flatMap Numeral.spelling =
        (String.ofList (slots.flatMap fun v => a.spell v.toUInt32.toNat)).toList := by
      rw [String.toList_ofList, hspelled]
    exact ⟨_, encode_eq_ok h slots, by rw [decode_spellings htext, hslots]⟩

/-- The ten decimal digits, of which the first five end a number. -/
def decimal : Alphabet where
  digits := "0123456789".toList
  base := 5
  base_pos := by decide
  base_lt := by decide
  nodup := by decide

theorem decode_encode_decimal :
    decimal.radix ≤ decimal.base ∧
      ∃ text, decimal.encode [42, -1] = .ok text ∧ decimal.decode text = .ok [42, -1] := by
  have hradix : decimal.radix ≤ decimal.base := by decide
  exact ⟨hradix, (decode_encode decimal _).2 hradix⟩

/-- A numeral whose value fits a slot is the spelling of its slot. -/
theorem Numeral.spell_slot (h : a.radix ≤ a.base) {n : a.Numeral} (hn : n.value < 2 ^ 32) :
    a.spell n.slot.toUInt32.toNat = n.spelling := by
  rw [n.toNat_slot, Nat.mod_eq_of_lt hn, n.spell_value h]

theorem Numeral.decode_spelling (n : a.Numeral) :
    a.decode (String.ofList n.spelling) = .ok [n.slot] := by
  have htext : [n].flatMap Numeral.spelling = (String.ofList n.spelling).toList := by
    rw [String.toList_ofList, List.flatMap_singleton]
  rw [decode_spellings htext, List.map_singleton]

/-- **Encoding undoes decoding** wherever the exact values of all numerals fit a slot. So every
slot has just one spelling of a value that fits. -/
theorem encode_decode (h : a.radix ≤ a.base) :
    (∀ text slots, a.decode text = .ok slots →
      (∃ numerals : List a.Numeral, numerals.flatMap Numeral.spelling = text.toList) ∧
      ∀ numerals : List a.Numeral, numerals.flatMap Numeral.spelling = text.toList →
        (∀ n ∈ numerals, n.value < 2 ^ 32) → a.encode slots = .ok text) ∧
    ∀ v : Int32, ∃! n : a.Numeral,
      n.value < 2 ^ 32 ∧ a.decode (String.ofList n.spelling) = .ok [v] := by
  refine ⟨fun text slots hdecode => ?_, fun v => ?_⟩
  · obtain ⟨hsplit, hslots⟩ := exists_numerals_of_decode hdecode
    refine ⟨hsplit, fun numerals hspelled hsmall => ?_⟩
    have hspell : ∀ n ∈ numerals, a.spell n.slot.toUInt32.toNat = n.spelling :=
      fun n hn => n.spell_slot h (hsmall n hn)
    rw [encode_eq_ok h, hslots numerals hspelled, List.flatMap_map, List.flatMap_congr hspell,
      hspelled, String.ofList_toList]
  · obtain ⟨n, hvalue, -⟩ := exists_spelling h v
    refine ⟨n, ⟨hvalue ▸ v.toUInt32.toNat_lt, ?_⟩, fun m ⟨hsmall, hdecode⟩ => ?_⟩
    · rw [n.decode_spelling, Numeral.slot_eq hvalue]
    · rw [m.decode_spelling] at hdecode
      obtain rfl : m.slot = v := List.singleton_inj.mp (Except.ok.inj hdecode)
      refine m.value_injective h ?_
      rw [hvalue, m.toNat_slot, Nat.mod_eq_of_lt hsmall]

theorem encode_decode_decimal :
    decimal.radix ≤ decimal.base ∧ decimal.decode "3700770" = .ok [3, 7, 0, 42] ∧
      decimal.encode [3, 7, 0, 42] = .ok "3700770" := by
  have hradix : decimal.radix ≤ decimal.base := by decide
  have hdecode : decimal.decode "3700770" = .ok [3, 7, 0, 42] := by cbv
  let numerals : List decimal.Numeral :=
    [⟨[], 3, by decide, by decide⟩, ⟨[7], 0, by decide, by decide⟩,
      ⟨[], 0, by decide, by decide⟩, ⟨[7, 7], 0, by decide, by decide⟩]
  have hspelled : numerals.flatMap Numeral.spelling = "3700770".toList := by decide
  have hsmall : ∀ n ∈ numerals, n.value < 2 ^ 32 := by decide
  obtain ⟨-, hencode⟩ := (encode_decode hradix).1 _ _ hdecode
  exact ⟨hradix, hdecode, hencode numerals hspelled hsmall⟩

end Alphabet

end TaggedBytecode
