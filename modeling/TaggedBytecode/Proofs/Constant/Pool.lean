import TaggedBytecode.Constant.Extraction
import TaggedBytecode.Proofs.Constant.Leading
import TaggedBytecode.Proofs.Text.Utf16

/-!
# Slices of an Extracted Pool

The pool that is cut out of a program is made of the *text* of its region, so surrogates that
are stray there have been replaced before a string is ever taken out of the pool. No string
shows it: a slice of the pool reads as the same slots of the region would read in place.

## Main definitions

* `Program.units` — the units that some slots of a program stand for.

## Main results

* `Decoder.stringPayload_of_constant`, `Decoder.exists_units_of_stringPayload` — an inline
  string is the text of its units.
* `StringPool.exists_region_of_extract` — where the region of a pool lies.
* `StringPool.slice_of_extract` — the slices of an extracted pool are those of its region.
-/

namespace TaggedBytecode

/-- The units that `length` slots from a position on stand for. -/
def Program.units (program : Program) (chars : CharTransform) (start length : Nat) : List UInt16 :=
  (program.extract start (start + length)).toList.map chars.codeUnit

namespace Program

variable {program : Program} {chars : CharTransform}

theorem length_units {start length : Nat} (h : start + length ≤ program.size) :
    (program.units chars start length).length = length := by
  simp only [units, List.length_map, Array.length_toList, Array.size_extract]
  omega

/-- A slice of units stands for a slice of slots. -/
theorem units_slice {start length offset count : Nat} (h : offset + count ≤ length) :
    ((program.units chars start length).drop offset).take count =
      program.units chars (start + offset) count := by
  simp only [units, Array.toList_extract, List.extract_eq_take_drop, ← List.map_drop,
    ← List.map_take, List.drop_take, List.drop_drop, List.take_take, Nat.add_sub_cancel_left]
  rw [Nat.min_eq_left (by omega)]

/-- The units of a part of a program are units of the program. -/
theorem units_extract {first last start length : Nat} (h : first + start + length ≤ last) :
    Program.units (program.extract first last) chars start length =
      program.units chars (first + start) length := by
  simp only [units, Array.extract_extract]
  congr 3
  omega

end Program

namespace Decoder

variable {d : Decoder} {program : Program} {position after : Nat} {s : String}

/-- A constant that is a string is one by its marker and by the payload behind it. -/
theorem marked_of_constant (h : d.constant program position = .ok (.str s, after)) :
    program[position]? = some d.markers.stringTag ∧
      d.stringPayload program (position + 1) = .ok (s, after) := by
  obtain ⟨raw, hraw, hlead, hled⟩ := exists_lead_of_constant h
  obtain ⟨found, hpayload, heq⟩ := mapFst_eq_ok_iff.mp hled
  obtain rfl := Constant.str.inj heq
  obtain rfl : raw = d.markers.stringTag := by
    simpa [Markers.assigned] using Markers.mem_assigned_of_lead hlead
  exact ⟨hraw, hpayload⟩

theorem stringPayload_of_constant (h : d.constant program position = .ok (.str s, after)) :
    d.stringPayload program (position + 1) = .ok (s, after) :=
  (marked_of_constant h).2

/-- Without a pool, the payload of a string is its length and the slots of its units. -/
theorem exists_units_of_stringPayload (hpool : d.pool = none)
    (h : d.stringPayload program position = .ok (s, after)) :
    ∃ length, program[position]? = some length ∧
      s = Text.ofUtf16 (program.units d.chars (position + 1) length.toInt.toNat) := by
  have hread := d.stringRead program position
  rw [h] at hread
  cases hread with
  | pooled _ _ hsome => exact absurd (hpool.symm.trans hsome) (by simp)
  | units hlength => exact ⟨_, hlength, rfl⟩

end Decoder

namespace StringPool

variable {program rest : Program} {markers : Markers} {chars : CharMode} {pool : StringPool}

/-- **Where the region of a pool lies.** The last slot of the program tells where the region
starts, the second slot of the region how many units it has. The pool is made of their text,
and the slots around the region are the rest of the program. -/
theorem exists_region_of_extract (h : extract program markers chars = .ok (rest, pool)) :
    ∃ (last length : Int32) (start : Nat), program.back? = some last ∧
      (last ^^^ Int32.ofNat (program.size + 4)).toInt = start ∧
      program[start + 1]? = some length ∧ 0 ≤ length.toInt ∧
      start + 2 + length.toInt.toNat ≤ program.size ∧
      rest = program.extract 0 start ++
        program.extract (start + 2 + length.toInt.toNat) program.size ∧
      pool = ofText (Text.ofUtf16 (program.units chars (start + 2) length.toInt.toNat)) := by
  rw [extract] at h
  split at h
  · rename_i last hlast
    simp only at h
    split at h
    · cases h
    · rename_i hsign
      obtain ⟨start, hstart⟩ := Int.eq_ofNat_of_zero_le (Int.not_lt.mp hsign)
      rw [hstart, Int.toNat_natCast] at h
      split at h
      · rename_i length hlength
        split at h
        · cases h
        · rename_i hbounds
          obtain ⟨hlow, hhigh⟩ := not_or.mp hbounds
          obtain ⟨⟨c, after⟩, hconstant, h⟩ := bind_eq_ok_iff.mp h
          have hstop : start + (length.toInt + 2).toNat = start + 2 + length.toInt.toNat := by
            omega
          rw [hstop] at hconstant h
          cases c with
          | str text =>
              obtain ⟨rfl, rfl⟩ := Prod.mk.inj (Except.ok.inj h)
              refine ⟨last, length, start, hlast, hstart, hlength, by omega, by omega, rfl, ?_⟩
              obtain ⟨length', hlength', rfl⟩ := Decoder.exists_units_of_stringPayload rfl
                (Decoder.stringPayload_of_constant hconstant)
              rw [Array.getElem?_extract, if_pos (by omega), Nat.zero_add, hlength] at hlength'
              obtain rfl := Option.some.inj hlength'
              rw [Program.units_extract (by omega)]
          | _ => cases h
      · cases h
  · cases h

/-- **The slices of an extracted pool are those of its region.** The pool has as many units as
its region declares. A slice of it is found just if it lies in the pool, and is then the text
of the slots that it stands for in the program, wherever it cuts a surrogate pair and whatever
stray surrogates the region holds. -/
theorem slice_of_extract (hextract : extract program markers chars = .ok (rest, pool)) :
    ∃ (last length : Int32) (start : Nat), program.back? = some last ∧
      (last ^^^ Int32.ofNat (program.size + 4)).toInt = start ∧
      program[start + 1]? = some length ∧ (pool.length : Int) = length.toInt ∧
      start + 2 + pool.length ≤ program.size ∧
      ∀ offset count, pool.slice offset count =
        if offset + count ≤ pool.length then
          some (Text.ofUtf16 (program.units chars (start + 2 + offset) count))
        else none := by
  obtain ⟨last, length, start, hlast, hstart, hlength, hsign, hsize, -, rfl⟩ :=
    exists_region_of_extract hextract
  have hunits : (program.units chars (start + 2) length.toInt.toNat).length =
      length.toInt.toNat := Program.length_units hsize
  have hpool : (ofText (Text.ofUtf16
      (program.units chars (start + 2) length.toInt.toNat))).length = length.toInt.toNat := by
    rw [StringPool.length, ofText, List.size_toArray, Text.length_utf16Units_ofUtf16, hunits]
  refine ⟨last, length, start, hlast, hstart, hlength, ?_, ?_, fun offset count => ?_⟩
  · rw [hpool, Int.toNat_of_nonneg hsign]
  · rw [hpool]
    exact hsize
  · rw [slice, hpool]
    split
    · rename_i hinside
      rw [ofText, Array.toList_extract, List.extract_eq_take_drop, Nat.add_sub_cancel_left,
        Text.ofUtf16_slice, Program.units_slice hinside]
    · rfl

/-- A string of a surrogate pair and a stray surrogate, embedded as the pool of a program. -/
def embeddedPool : Program := #[37, 2, 4, 0xd83d, 0xde00, 0xdc00, 65, 13]

theorem slice_of_extract_embeddedPool :
    ∃ rest pool, extract embeddedPool {} .identity = .ok (rest, pool) ∧
      pool.slice 0 4 = some "😀\ufffdA" ∧ pool.slice 1 2 = some "\ufffd\ufffd" ∧
      pool.slice 3 2 = none := by
  have hextract : ∃ rest pool, extract embeddedPool {} .identity = .ok (rest, pool) ∧
      pool.length = 4 := ⟨_, _, rfl, rfl⟩
  obtain ⟨rest, pool, hextract, hfour⟩ := hextract
  obtain ⟨last, length, start, hlast, hstart, -, -, -, hslice⟩ := slice_of_extract hextract
  obtain rfl : 13 = last := Option.some.inj hlast
  obtain rfl : 1 = start := Int.ofNat.inj hstart
  refine ⟨rest, pool, hextract, ?_, ?_, ?_⟩
  · rw [hslice, hfour]
    rfl
  · rw [hslice, hfour]
    rfl
  · rw [hslice, hfour]
    rfl

end StringPool

end TaggedBytecode
