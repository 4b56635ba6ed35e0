import Mathlib
import TaggedBytecode.Proofs.Constant.Leading
import TaggedBytecode.Proofs.Text.Utf16

/-!
# Spelling Constants

Every constant that a program can hold has a **spelling**, the slots that decode to it. A
spelling tells its own end: the first slot decides what the constant is, and a string says how
many units follow. So spellings can stand one behind the other, whatever their payloads look
like, and reading constants from the front gives back what was spelled.

## Main definitions

* `CharMode.slotOf` — the slot of a unit in an inline string.
* `Constant.Spellable`, `Constant.spelling` — the constants that have a spelling, and their
  slots.
* `Decoder.constants` — reads some constants, one behind the other.

## Main results

* `Decoder.constant_spelling` — a spelling decodes to its constant, and no slot behind it counts.
* `Decoder.constants_spellings` — spellings decode to what was spelled.
-/

namespace TaggedBytecode

/-! ### Words -/

/-- The low bit of a slot is its parity. -/
theorem isOdd_eq (raw : Int32) : isOdd raw = decide (raw.toInt % 2 = 1) := by
  have hlow : (raw &&& 1).toUInt32.toNat = raw.toUInt32.toNat % 2 := by
    rw [Int32.toUInt32_and, UInt32.toNat_and]
    exact Nat.and_two_pow_sub_one_eq_mod _ 1
  have hzero : raw &&& 1 = 0 ↔ (raw &&& 1).toUInt32.toNat = 0 := by
    refine ⟨fun h => by rw [h]; rfl, fun h => ?_⟩
    have hword : (raw &&& 1).toUInt32 = 0 := UInt32.toNat_inj.mp h
    rw [← Int32.toInt32_toUInt32 (raw &&& 1), hword]
    rfl
  have hsign : raw.toInt =
      if 2 * raw.toUInt32.toNat < 2 ^ 32 then (raw.toUInt32.toNat : Int)
      else raw.toUInt32.toNat - 2 ^ 32 := raw.toBitVec.toInt_eq_toNat_cond
  rw [isOdd, Bool.eq_iff_iff, bne_iff_ne, decide_eq_true_iff, Ne, hzero, hlow, hsign]
  split <;> omega

/-- An arithmetic shift to the right is a division that rounds down. -/
theorem toInt_shiftRight_one (raw : Int32) : (raw >>> 1).toInt = raw.toInt / 2 := by
  have h := BitVec.toInt_sshiftRight (x := raw.toBitVec) (n := 1)
  rw [Int.shiftRight_eq_div_pow] at h
  exact h

theorem toInt_shiftRight_five (raw : Int32) : (raw >>> 5).toInt = raw.toInt / 32 := by
  have h := BitVec.toInt_sshiftRight (x := raw.toBitVec) (n := 5)
  rw [Int.shiftRight_eq_div_pow] at h
  exact h

/-- A word without its low six bits. -/
theorem toNat_and_not_63 (x : UInt32) : (x &&& ~~~63).toNat = x.toNat / 64 * 64 := by
  have hmask : (~~~63 : UInt32).toNat = (2 ^ 26 - 1) * 2 ^ 6 := by decide
  have hword : x.toNat / 64 * 64 = x.toNat / 2 ^ 6 * 2 ^ 6 := rfl
  rw [UInt32.toNat_and, hmask, hword]
  refine Nat.eq_of_testBit_eq fun i => ?_
  rw [Nat.testBit_and, Nat.testBit_mul_two_pow, Nat.testBit_mul_two_pow,
    Nat.testBit_two_pow_sub_one, Nat.testBit_div_two_pow]
  by_cases hlow : 6 ≤ i
  · by_cases hhigh : i < 32
    · have hmasked : i - 6 < 26 := by omega
      simp [hlow, hmasked]
    · have hzero : x.toNat.testBit i = false :=
        Nat.testBit_lt_two_pow (Nat.lt_of_lt_of_le x.toNat_lt
          (Nat.pow_le_pow_right (by decide) (Nat.le_of_not_lt hhigh)))
      simp [hzero, hlow]
  · simp [hlow]

/-- The low six bits of one word below the other bits of another. -/
theorem toNat_spliced (x y : UInt32) :
    ((x &&& ~~~63) ||| (y &&& 63)).toNat = x.toNat / 64 * 64 + y.toNat % 64 := by
  have hlow : (y &&& 63).toNat = y.toNat % 64 := by
    rw [UInt32.toNat_and]
    exact Nat.and_two_pow_sub_one_eq_mod y.toNat 6
  rw [UInt32.toNat_or, toNat_and_not_63, hlow, Nat.mul_comm,
    ← Nat.two_pow_add_eq_or_of_lt (i := 6) (Nat.mod_lt _ (by decide))]

/-- A word is put together again from its halves. -/
theorem word_of_halves (bits : UInt64) :
    (bits >>> 32).toUInt32.toInt32.toUInt32.toUInt64 <<< 32 |||
      bits.toUInt32.toInt32.toUInt32.toUInt64 = bits := by
  have hbits := bits.toNat_lt
  have hhigh : ((bits >>> 32).toUInt32.toUInt64 <<< 32).toNat = 2 ^ 32 * (bits.toNat / 2 ^ 32) := by
    have hquotient : bits.toNat / 2 ^ 32 < 2 ^ 32 := by omega
    rw [UInt64.toNat_shiftLeft, UInt32.toNat_toUInt64, UInt64.toNat_toUInt32,
      UInt64.toNat_shiftRight]
    simp only [UInt64.toNat_ofNat, Nat.shiftRight_eq_div_pow, Nat.shiftLeft_eq, Nat.reduceMod,
      Nat.reducePow] at hquotient ⊢
    omega
  rw [UInt32.toUInt32_toInt32, UInt32.toUInt32_toInt32]
  apply UInt64.toNat_inj.mp
  rw [UInt64.toNat_or, hhigh, UInt32.toNat_toUInt64, UInt64.toNat_toUInt32,
    ← Nat.two_pow_add_eq_or_of_lt (Nat.mod_lt _ (by decide))]
  exact Nat.div_add_mod bits.toNat (2 ^ 32)

namespace CharMode

/-- The slot that stands for a unit. The multiplier undoes the one of the mode modulo 64. -/
def slotOf : CharMode → UInt16 → Int32
  | identity, u => u.toUInt32.toInt32
  | maskMultiply, u =>
    (u.toUInt32.toInt32 &&& ~~~63) ||| (u.toUInt32.toInt32 * 25 &&& 63)

/-- The slot of a unit stands for it. In the scrambled mode the two multipliers make
`25 * 41 = 16 * 64 + 1`. -/
theorem codeUnit_slotOf (mode : CharMode) (u : UInt16) : mode.codeUnit (mode.slotOf u) = u := by
  have hu := u.toNat_lt
  apply UInt16.toNat_inj.mp
  cases mode with
  | identity =>
      rw [slotOf, codeUnit, UInt32.toUInt32_toInt32, UInt32.toNat_toUInt16, UInt16.toNat_toUInt32]
      exact Nat.mod_eq_of_lt hu
  | maskMultiply =>
      have hslot : (slotOf maskMultiply u).toUInt32 =
          (u.toUInt32 &&& ~~~63) ||| (u.toUInt32 * 25 &&& 63) := rfl
      generalize slotOf maskMultiply u = slot at hslot ⊢
      have hunit : codeUnit maskMultiply slot =
          ((slot.toUInt32 &&& ~~~63) ||| (slot.toUInt32 * 41 &&& 63)).toUInt16 := rfl
      have h25 : (u.toUInt32 * 25).toNat = u.toNat * 25 % 2 ^ 32 := UInt32.toNat_mul _ _
      have h41 : (slot.toUInt32 * 41).toNat = slot.toUInt32.toNat * 41 % 2 ^ 32 :=
        UInt32.toNat_mul _ _
      have hbits := toNat_spliced u.toUInt32 (u.toUInt32 * 25)
      rw [← hslot, h25, UInt16.toNat_toUInt32] at hbits
      have hhigh : slot.toUInt32.toNat / 64 = u.toNat / 64 := by omega
      have hlow : slot.toUInt32.toNat * 41 % 2 ^ 32 % 64 = u.toNat % 64 := by omega
      rw [hunit, UInt32.toNat_toUInt16, toNat_spliced, h41, hhigh, hlow]
      omega

end CharMode

/-! ### Spellings -/

namespace Constant

/-- The constants that a table can spell: integers of 31 bits, strings whose units a slot can
count, references whose slot is no marker, and undefined just if it has a marker. -/
def Spellable (t : Markers) : Constant → Prop
  | smallInt n => -2 ^ 30 ≤ n.toInt ∧ n.toInt < 2 ^ 30
  | float64 _ => True
  | bool _ => True
  | null => True
  | str s => (Text.utf16Units s).length < 2 ^ 31
  | varRef slot => slot < 2 ^ 26 ∧ t.isMarker (Int32.ofNat (32 * slot)) = false
  | undefined => t.undefinedTag.isSome

instance (t : Markers) : DecidablePred (Spellable t)
  | smallInt n => inferInstanceAs (Decidable (-2 ^ 30 ≤ n.toInt ∧ n.toInt < 2 ^ 30))
  | float64 _ | bool _ | null => isTrue trivial
  | str s => inferInstanceAs (Decidable ((Text.utf16Units s).length < 2 ^ 31))
  | varRef slot => inferInstanceAs
      (Decidable (slot < 2 ^ 26 ∧ t.isMarker (Int32.ofNat (32 * slot)) = false))
  | undefined => inferInstanceAs (Decidable (t.undefinedTag.isSome = true))

/-- The slots that spell a constant. -/
def spelling (t : Markers) (chars : CharMode) : Constant → List Int32
  | smallInt n => [Int32.ofInt (2 * n.toInt + 1)]
  | float64 x =>
    [t.floatTag, (x.bits >>> 32).toUInt32.toInt32, x.bits.toUInt32.toInt32]
  | bool true => [t.trueTag]
  | bool false => [t.falseTag]
  | null => [t.nullTag]
  | str s =>
    t.stringTag :: Int32.ofNat (Text.utf16Units s).length ::
      (Text.utf16Units s).map chars.slotOf
  | varRef slot => [Int32.ofNat (32 * slot)]
  | undefined => t.undefinedTag.toList

end Constant

namespace Decoder

variable {d : Decoder} {mode : CharMode} {program : Program} {position : Nat}
  {rest : List Int32}

/-- Reads `count` constants, one behind the other. -/
def constants (d : Decoder) (program : Program) :
    (count position : Nat) → Except Fault (List Constant × Nat)
  | 0, position => .ok ([], position)
  | count + 1, position => do
    let (c, after) ← d.constant program position
    let (cs, after) ← d.constants program count after
    return (c :: cs, after)

/-- What a program holds from a position on. -/
theorem getElem?_of_drop {slots : List Int32} (h : program.toList.drop position = slots)
    (i : Nat) : program[position + i]? = slots[i]? := by
  rw [← h, List.getElem?_drop, Array.getElem?_toList]

/-- The integer of an odd slot, doubled and one more, is the slot. -/
theorem constant_smallInt {n : Int32} (hlow : -2 ^ 30 ≤ n.toInt) (hhigh : n.toInt < 2 ^ 30)
    (hraw : program[position]? = some (Int32.ofInt (2 * n.toInt + 1))) :
    d.constant program position = .ok (.smallInt n, position + 1) := by
  have hslot : (Int32.ofInt (2 * n.toInt + 1)).toInt = 2 * n.toInt + 1 :=
    Int32.toInt_ofInt_of_le (by omega) (by omega)
  have hodd : isOdd (Int32.ofInt (2 * n.toInt + 1)) = true := by
    rw [isOdd_eq, hslot, decide_eq_true_iff]
    omega
  have hhalf : Int32.ofInt (2 * n.toInt + 1) >>> 1 = n := by
    rw [← Int32.toInt_inj, toInt_shiftRight_one, hslot]
    omega
  rw [constant_of_odd hraw hodd, hhalf]

/-- A float follows its marker as two words, the high one first. -/
theorem floatPayload_halves {x : Binary64}
    (hhigh : program[position]? = some (x.bits >>> 32).toUInt32.toInt32)
    (hlow : program[position + 1]? = some x.bits.toUInt32.toInt32) :
    floatPayload program position = .ok (x, position + 2) := by
  rw [floatPayload_eq hhigh hlow, word_of_halves]

/-- A string follows its marker as the number of its units and their slots. -/
theorem stringPayload_units {s : String} (hinline : d = { markers := d.markers, chars := mode })
    (hlength : (Text.utf16Units s).length < 2 ^ 31)
    (hcount : program[position]? = some (Int32.ofNat (Text.utf16Units s).length))
    (hunits : program.toList.drop (position + 1) =
      (Text.utf16Units s).map mode.slotOf ++ rest) :
    d.stringPayload program position =
      .ok (s, position + 1 + (Text.utf16Units s).length) := by
  have hpool : d.pool = none := congrArg pool hinline
  have hchars : d.chars = mode := congrArg chars hinline
  have hsign : ¬ Int32.ofNat (Text.utf16Units s).length < 0 := by
    rw [Int32.lt_iff_toInt_lt, Int32.toInt_ofNat_of_lt hlength, Int32.toInt_zero]
    omega
  have hnat : (Int32.ofNat (Text.utf16Units s).length).toNatClampNeg = (Text.utf16Units s).length :=
    Int32.toNatClampNeg_ofNat_of_lt hlength
  have hsize : ¬ program.size < position + 1 + (Text.utf16Units s).length := by
    obtain ⟨hinside, -⟩ := Array.getElem?_eq_some_iff.mp hcount
    have hdropped := congrArg List.length hunits
    simp only [List.length_drop, Array.length_toList, List.length_append, List.length_map]
      at hdropped
    omega
  have hslots : (program.extract (position + 1)
      (position + 1 + (Text.utf16Units s).length)).toList =
        (Text.utf16Units s).map mode.slotOf := by
    rw [Array.toList_extract, List.extract_eq_take_drop, hunits, Nat.add_sub_cancel_left,
      List.take_left' (by simp)]
  have hdecoded : ((Text.utf16Units s).map mode.slotOf).map d.chars.codeUnit =
      Text.utf16Units s := by
    rw [List.map_map, hchars]
    exact List.map_id'' (CharMode.codeUnit_slotOf mode) _
  simp only [stringPayload_eq hcount, if_neg hsign, hpool, hnat, inlineUnits, if_neg hsize, hslots,
    hdecoded, Text.ofUtf16_utf16Units]

/-- A reference is its variable times thirty-two. -/
theorem constant_varRef {slot : Nat} (hslot : slot < 2 ^ 26)
    (hmarker : d.markers.isMarker (Int32.ofNat (32 * slot)) = false)
    (hraw : program[position]? = some (Int32.ofNat (32 * slot))) :
    d.constant program position = .ok (.varRef slot, position + 1) := by
  have hword : (Int32.ofNat (32 * slot)).toInt = 32 * slot :=
    Int32.toInt_ofNat_of_lt (by omega)
  have heven : isOdd (Int32.ofNat (32 * slot)) = false := by
    rw [isOdd_eq, hword, decide_eq_false_iff_not]
    omega
  have hsign : ¬ Int32.ofNat (32 * slot) < 0 := by
    rw [Int32.lt_iff_toInt_lt, hword, Int32.toInt_zero]
    omega
  have hnumber : (Int32.ofNat (32 * slot) >>> 5).toNatClampNeg = slot := by
    rw [Int32.toNatClampNeg, toInt_shiftRight_five, hword]
    omega
  rw [constant_of_unmarked hraw heven hmarker, slotReference, if_neg hsign, hnumber]
  rfl

/-- **A spelling decodes to its constant.** Reading ends where the spelling ends, whatever
follows it. -/
theorem constant_spelling (hvalid : d.markers.validate = .ok ())
    (hinline : d = { markers := d.markers, chars := mode }) {c : Constant}
    (hc : c.Spellable d.markers)
    (hslots : program.toList.drop position = c.spelling d.markers mode ++ rest) :
    d.constant program position =
      .ok (c, position + (c.spelling d.markers mode).length) := by
  have hslot := getElem?_of_drop hslots
  have hfirst := hslot 0
  rw [Nat.add_zero] at hfirst
  cases c with
  | smallInt n => exact constant_smallInt hc.1 hc.2 hfirst
  | float64 x =>
      rw [constant_of_assigned hvalid .float (by simp [Markers.assigned]) hfirst,
        announced, floatPayload_halves (hslot 1) (hslot 2)]
      rfl
  | bool b =>
      cases b with
      | true =>
          exact constant_of_assigned hvalid .true (by simp [Markers.assigned]) hfirst
      | false =>
          exact constant_of_assigned hvalid .false (by simp [Markers.assigned]) hfirst
  | null =>
      exact constant_of_assigned hvalid .null (by simp [Markers.assigned]) hfirst
  | str s =>
      have hunits : program.toList.drop (position + 1 + 1) =
          (Text.utf16Units s).map mode.slotOf ++ rest := by
        rw [Nat.add_assoc, ← List.drop_drop, hslots]
        rfl
      rw [constant_of_assigned hvalid .string (by simp [Markers.assigned]) hfirst,
        announced, stringPayload_units hinline hc (hslot 1) hunits]
      simp only [Except.map, Constant.spelling, List.length_cons, List.length_map]
      congr 2
      omega
  | varRef slot => exact constant_varRef hc.1 hc.2 hfirst
  | undefined =>
      obtain ⟨raw, hraw⟩ := Option.isSome_iff_exists.mp hc
      rw [Constant.spelling, hraw] at hfirst
      rw [constant_of_assigned hvalid .undefined (by simp [Markers.assigned, hraw])
        hfirst, Constant.spelling, hraw]
      rfl

/-- From a position where spellings stand, the constants that they spell are read, up to where
the spellings end. -/
theorem constants_of_drop (hvalid : d.markers.validate = .ok ())
    (hinline : d = { markers := d.markers, chars := mode })
    {cs : List Constant} (hcs : ∀ c ∈ cs, c.Spellable d.markers)
    (hslots : program.toList.drop position =
      cs.flatMap (fun c => c.spelling d.markers mode) ++ rest) :
    d.constants program cs.length position =
      .ok (cs, position + (cs.flatMap fun c => c.spelling d.markers mode).length) := by
  induction cs generalizing position with
  | nil => rfl
  | cons c cs ih =>
      rw [List.forall_mem_cons] at hcs
      rw [List.flatMap_cons, List.append_assoc] at hslots
      have hbehind : program.toList.drop
          (position + (c.spelling d.markers mode).length) =
            cs.flatMap (fun c => c.spelling d.markers mode) ++ rest := by
        rw [← List.drop_drop, hslots, List.drop_left]
      simp only [List.length_cons, constants, constant_spelling hvalid hinline hcs.1 hslots,
        ih hcs.2 hbehind, bind, Except.bind, pure, Except.pure, List.flatMap_cons,
        List.length_append, Nat.add_assoc]

/-- **Spellings decode to what they spell.** Under a valid table, in both character modes and
without a pool, constants spelled one behind the other are read back, bit for bit, whatever
slots follow them, and reading ends where their spellings end. -/
theorem constants_spellings {t : Markers} (hvalid : t.validate = .ok ()) (chars : CharMode)
    {cs : List Constant} (hcs : ∀ c ∈ cs, c.Spellable t) (rest : List Int32) :
    ({ markers := t, chars } : Decoder).constants
        (cs.flatMap (fun c => c.spelling t chars) ++ rest).toArray cs.length 0 =
      .ok (cs, (cs.flatMap fun c => c.spelling t chars).length) := by
  have h := constants_of_drop (d := { markers := t, chars }) hvalid rfl hcs
    (List.drop_zero (l := cs.flatMap (fun c => c.spelling t chars) ++ rest))
  rwa [Nat.zero_add] at h

/-- A table in which undefined has a marker. -/
def withUndefined : Markers := { undefinedTag := some 50 }

/-- Constants of every kind. The words of the float and the units of the string look like
markers, and the string has a character that is two units. -/
def everyKind : List Constant :=
  [.smallInt (-2 ^ 30), .float64 ⟨0x0000002e00000002⟩, .str "\x02.😀", .bool true, .bool false,
    .null, .undefined, .varRef 0, .varRef (2 ^ 26 - 1), .str "", .smallInt (2 ^ 30 - 1)]

theorem constants_spellings_everyKind :
    withUndefined.validate = .ok () ∧ (∀ c ∈ everyKind, c.Spellable withUndefined) ∧
      ({ markers := withUndefined } : Decoder).constants
        #[-2147483647, 46, 46, 2, 2, 4, 50, 62, 55349, 56832, 22, 38, 36, 50, 0, 2147483616, 2, 0,
          2147483647, 2, 46] 11 0 = .ok (everyKind, 19) := by
  have hvalid : withUndefined.validate = .ok () := rfl
  have hcs : ∀ c ∈ everyKind, c.Spellable withUndefined := by decide +kernel
  have hslots : everyKind.flatMap (fun c => c.spelling withUndefined .maskMultiply) =
      [-2147483647, 46, 46, 2, 2, 4, 50, 62, 55349, 56832, 22, 38, 36, 50, 0, 2147483616, 2, 0,
        2147483647] := by decide +kernel
  have h := constants_spellings hvalid .maskMultiply hcs [2, 46]
  rw [hslots] at h
  exact ⟨hvalid, hcs, h⟩

end Decoder

end TaggedBytecode
