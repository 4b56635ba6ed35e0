import Mathlib.Data.List.Basic
import TaggedBytecode.Constant.Decoder

/-!
# Reading Slots

A slot can be read as a reference or as a constant. Both readers refuse a negative slot that
holds no marker, and on most slots they move alike. They part where a marker announces a
payload: read as a reference, the slot of a float or of a string is a number like any other,
and read as a constant it takes the slots behind it along.

A payload can be cut off or refused at several slots. What reading it can come to is said once,
as a relation with a case for each way to end.

## Main definitions

* `Markers.AnnouncesPayload` — the slot values that a constant with a payload begins with.
* `Decoder.FloatRead`, `Decoder.StringRead` — all that reading a payload can come to.

## Main results

* `Markers.validate_eq_ok_iff` — the valid tables.
* `Decoder.slot_eq_ok_iff` — which slots are references.
* `Decoder.floatRead`, `Decoder.stringRead` — what reading a payload comes to.
-/

namespace TaggedBytecode

/-- A bind succeeds just if both of its parts do. -/
theorem bind_eq_ok_iff {ε α β : Type} {x : Except ε α} {f : α → Except ε β} {b : β} :
    (x >>= f) = .ok b ↔ ∃ a, x = .ok a ∧ f a = .ok b := by
  cases x with
  | error e => simp [bind, Except.bind]
  | ok a => simp [bind, Except.bind]

theorem map_eq_ok_iff {ε α β : Type} {x : Except ε α} {f : α → β} {b : β} :
    x.map f = .ok b ↔ ∃ a, x = .ok a ∧ f a = b := by
  cases x with
  | error e => simp [Except.map]
  | ok a => simp [Except.map]

/-- What is made of a value that was read leaves the position behind it alone. -/
theorem mapFst_eq_ok_iff {ε α β σ : Type} {x : Except ε (α × σ)} {f : α → β} {b : β} {s : σ} :
    (x.map fun (a, s) => (f a, s)) = .ok (b, s) ↔ ∃ a, x = .ok (a, s) ∧ f a = b := by
  rw [map_eq_ok_iff]
  constructor
  · rintro ⟨⟨a, _⟩, rfl, heq⟩
    obtain ⟨rfl, rfl⟩ := Prod.mk.inj heq
    exact ⟨a, rfl, rfl⟩
  · rintro ⟨a, rfl, rfl⟩
    exact ⟨_, rfl, rfl⟩

/-! ### Valid tables -/

namespace Markers

theorem check_eq_ok_iff {earlier rest : List (Marker × Int32)} :
    check earlier rest = .ok () ↔ (∀ e ∈ rest, isOdd e.2 = false) ∧
      rest.Pairwise (fun e f => e.2 ≠ f.2) ∧ ∀ e ∈ earlier, ∀ f ∈ rest, e.2 ≠ f.2 := by
  induction rest generalizing earlier with
  | nil => simp [check]
  | cons first rest ih =>
      obtain ⟨marker, value⟩ := first
      rw [check]
      split
      · rename_i hodd
        simp [hodd]
      · rename_i heven
        split
        · rename_i other _ hshared
          have hother := List.mem_of_find?_eq_some hshared
          have hvalue := List.find?_some hshared
          simp only [beq_iff_eq] at hvalue
          simp only [reduceCtorEq, false_iff, not_and, not_forall]
          intro _ _
          exact ⟨_, hother, _, List.mem_cons_self, not_not.mpr hvalue⟩
        · rename_i hfresh
          rw [List.find?_eq_none] at hfresh
          simp only [beq_iff_eq] at hfresh
          simp only [ih, List.forall_mem_append, List.forall_mem_cons, List.pairwise_cons,
            List.not_mem_nil, false_imp_iff, implies_true, and_true]
          constructor
          · rintro ⟨heven', hrest, hearlier, hfirst⟩
            exact ⟨⟨Bool.eq_false_iff.mpr heven, heven'⟩, ⟨hfirst, hrest⟩,
              fun e he => ⟨hfresh e he, hearlier e he⟩⟩
          · rintro ⟨⟨-, heven'⟩, ⟨hfirst, hrest⟩, hearlier⟩
            exact ⟨heven', hrest, fun e he => (hearlier e he).2, hfirst⟩

/-- The valid tables: all values are even, and no two are equal. -/
theorem validate_eq_ok_iff {t : Markers} :
    t.validate = .ok () ↔ (∀ e ∈ t.assigned, isOdd e.2 = false) ∧
      t.assigned.Pairwise fun e f => e.2 ≠ f.2 := by
  simp [validate, check_eq_ok_iff]

/-- The markers of floats and strings, whose constants go on behind the marker. -/
def AnnouncesPayload (t : Markers) (raw : Int32) : Prop :=
  raw = t.floatTag ∨ raw = t.stringTag

end Markers

/-! ### References -/

theorem takeSlot_eq_ok_iff {program : Program} {position after : Nat} {awaited : Awaited}
    {raw : Int32} :
    takeSlot program position awaited = .ok (raw, after) ↔
      program[position]? = some raw ∧ after = position + 1 := by
  rw [takeSlot]
  cases program[position]? with
  | none => simp
  | some found =>
      simp only [Except.ok.injEq, Prod.mk.injEq, Option.some.injEq]
      exact and_congr_right fun _ => eq_comm

/-- A slot cannot be taken just if it lies behind the program. -/
theorem takeSlot_eq_error_iff {program : Program} {position : Nat} {awaited : Awaited}
    {fault : Fault} :
    takeSlot program position awaited = .error fault ↔
      program.size ≤ position ∧ fault = .constant position (.ended awaited) := by
  rw [takeSlot]
  split
  · rename_i hraw
    simp [Nat.not_le.mpr (Array.getElem?_eq_some_iff.mp hraw).1]
  · rename_i hnone
    simp [Array.getElem?_eq_none_iff.mp hnone, eq_comm]

theorem slotReference_eq_ok_iff {raw : Int32} {after slot : Nat} :
    slotReference raw after = .ok slot ↔ ¬raw < 0 ∧ (raw >>> 5).toNatClampNeg = slot := by
  rw [slotReference]
  split <;> simp [*]

namespace Decoder

variable {d : Decoder} {program : Program} {position after : Nat} {raw : Int32}

/-- Behind the program there is no reference. -/
theorem slot_of_size (h : program.size ≤ position) :
    slot program position = .error (.constant position (.ended .destination)) := by
  rw [slot, takeSlot_eq_error_iff.mpr ⟨h, rfl⟩]
  rfl

/-- What a slot is as a reference, once it is there. -/
theorem slot_eq (hraw : program[position]? = some raw) :
    slot program position =
      (slotReference raw (position + 1)).map fun reference => (reference, position + 1) := by
  have htake : takeSlot program position .destination = .ok (raw, position + 1) :=
    takeSlot_eq_ok_iff.mpr ⟨hraw, rfl⟩
  simp only [slot, htake, bind, Except.bind]
  cases slotReference raw (position + 1) <;> rfl

/-- A reference is a slot that is not negative. -/
theorem slot_eq_ok_iff {reference : Nat} :
    slot program position = .ok (reference, after) ↔
      ∃ raw, program[position]? = some raw ∧ ¬raw < 0 ∧
        (raw >>> 5).toNatClampNeg = reference ∧ after = position + 1 := by
  simp only [slot, bind_eq_ok_iff, Prod.exists, takeSlot_eq_ok_iff, slotReference_eq_ok_iff,
    pure, Except.pure, Except.ok.injEq, Prod.mk.injEq]
  grind

/-! ### Payloads -/

/-- The payload of a float once its words are there. -/
theorem floatPayload_eq {high low : Int32} (hhigh : program[position]? = some high)
    (hlow : program[position + 1]? = some low) :
    floatPayload program position =
      .ok (⟨high.toUInt32.toUInt64 <<< 32 ||| low.toUInt32.toUInt64⟩, position + 2) := by
  have htakeHigh : takeSlot program position .floatHigh = .ok (high, position + 1) :=
    takeSlot_eq_ok_iff.mpr ⟨hhigh, rfl⟩
  have htakeLow : takeSlot program (position + 1) .floatLow = .ok (low, position + 2) :=
    takeSlot_eq_ok_iff.mpr ⟨hlow, rfl⟩
  simp only [floatPayload, htakeHigh, htakeLow, bind, Except.bind, pure, Except.pure]

/-- The payload of a string once its length is there. -/
theorem stringPayload_eq {length : Int32} (hlength : program[position]? = some length) :
    d.stringPayload program position =
      if length < 0 then .error (.constant position (.negativeLength length))
      else
        match d.pool with
        | some pool => pooledString pool program (position + 1) length
        | none => d.inlineUnits program (position + 1) length.toNatClampNeg := by
  have htake : takeSlot program position .stringLength = .ok (length, position + 1) :=
    takeSlot_eq_ok_iff.mpr ⟨hlength, rfl⟩
  simp only [stringPayload, htake, bind, Except.bind]
  split <;> rfl

/-- A string of a pool once its offset is there: the pool has all its units, or the offset is
refused. -/
theorem pooledString_eq {pool : StringPool} {offset length : Int32}
    (hoffset : program[position]? = some offset) (hlength : ¬length < 0) :
    pooledString pool program position length =
      if 0 ≤ offset.toInt ∧ offset.toInt + length.toInt ≤ pool.length then
        .ok (Text.ofUtf16 (pool.units.extract offset.toNatClampNeg
          (offset.toNatClampNeg + length.toNatClampNeg)).toList, position + 1)
      else .error (.constant position (.poolSlice offset length pool.length)) := by
  have htake : takeSlot program position .poolOffset = .ok (offset, position + 1) :=
    takeSlot_eq_ok_iff.mpr ⟨hoffset, rfl⟩
  have hsign : offset < 0 ↔ ¬0 ≤ offset.toInt := by
    rw [Int32.lt_iff_toInt_lt, Int32.toInt_zero, Int.not_le]
  rw [Int32.lt_iff_toInt_lt, Int32.toInt_zero] at hlength
  simp only [pooledString, htake, bind, Except.bind, StringPool.slice, hsign]
  by_cases hnonneg : 0 ≤ offset.toInt
  · have hinside : offset.toNatClampNeg + length.toNatClampNeg ≤ pool.length ↔
        offset.toInt + length.toInt ≤ pool.length := by
      simp only [Int32.toNatClampNeg]
      omega
    simp only [hnonneg, not_true, if_false, true_and, hinside]
    by_cases hfits : offset.toInt + length.toInt ≤ pool.length
    · rw [if_pos hfits, if_pos hfits]
      rfl
    · rw [if_neg hfits, if_neg hfits]
      rfl
  · simp only [hnonneg, not_false_iff, if_true, false_and, if_false]
    rfl

/-- All that reading the two words of a float can come to. -/
inductive FloatRead (program : Program) (position : Nat) :
    Except Fault (Binary64 × Nat) → Prop
  | noHigh : program.size ≤ position →
      FloatRead program position (.error (.constant position (.ended .floatHigh)))
  | noLow : program.size = position + 1 →
      FloatRead program position (.error (.constant (position + 1) (.ended .floatLow)))
  | words {high low : Int32} : program[position]? = some high →
      program[position + 1]? = some low →
      FloatRead program position
        (.ok (⟨high.toUInt32.toUInt64 <<< 32 ||| low.toUInt32.toUInt64⟩, position + 2))

theorem floatRead (program : Program) (position : Nat) :
    FloatRead program position (floatPayload program position) := by
  cases hhigh : takeSlot program position .floatHigh with
  | error fault =>
      obtain ⟨hsize, rfl⟩ := takeSlot_eq_error_iff.mp hhigh
      rw [floatPayload, hhigh]
      exact .noHigh hsize
  | ok read =>
      obtain ⟨high, _⟩ := read
      obtain ⟨hget, rfl⟩ := takeSlot_eq_ok_iff.mp hhigh
      have hposition := (Array.getElem?_eq_some_iff.mp hget).1
      cases hlow : takeSlot program (position + 1) .floatLow with
      | error fault =>
          obtain ⟨hsize, rfl⟩ := takeSlot_eq_error_iff.mp hlow
          simp only [floatPayload, hhigh, hlow, bind, Except.bind]
          exact .noLow (Nat.le_antisymm hsize hposition)
      | ok read =>
          obtain ⟨low, _⟩ := read
          obtain ⟨hget', rfl⟩ := takeSlot_eq_ok_iff.mp hlow
          rw [floatPayload_eq hget hget']
          exact .words hget hget'

/-- All that reading the length and the content of a string can come to. A length that is
negative is refused before anything else is read. Under a pool the length is followed by an
offset, which has to leave room for the length in the pool, and otherwise by the units. -/
inductive StringRead (d : Decoder) (program : Program) (position : Nat) :
    Except Fault (String × Nat) → Prop
  | noLength : program.size ≤ position →
      StringRead d program position (.error (.constant position (.ended .stringLength)))
  | negative {length : Int32} : program[position]? = some length → length < 0 →
      StringRead d program position (.error (.constant position (.negativeLength length)))
  | noOffset {length : Int32} {pool : StringPool} : program[position]? = some length →
      ¬length < 0 → d.pool = some pool → program.size = position + 1 →
      StringRead d program position (.error (.constant (position + 1) (.ended .poolOffset)))
  | outside {length offset : Int32} {pool : StringPool} : program[position]? = some length →
      ¬length < 0 → d.pool = some pool → program[position + 1]? = some offset →
      ¬(0 ≤ offset.toInt ∧ offset.toInt + length.toInt ≤ pool.length) →
      StringRead d program position
        (.error (.constant (position + 1) (.poolSlice offset length pool.length)))
  | pooled {length offset : Int32} {pool : StringPool} : program[position]? = some length →
      ¬length < 0 → d.pool = some pool → program[position + 1]? = some offset →
      0 ≤ offset.toInt ∧ offset.toInt + length.toInt ≤ pool.length →
      StringRead d program position
        (.ok (Text.ofUtf16 (pool.units.extract offset.toNatClampNeg
          (offset.toNatClampNeg + length.toNatClampNeg)).toList, position + 2))
  | cutOff {length : Int32} : program[position]? = some length → ¬length < 0 → d.pool = none →
      program.size < position + 1 + length.toNatClampNeg →
      StringRead d program position
        (.error (.constant program.size (.insideString length.toNatClampNeg)))
  | units {length : Int32} : program[position]? = some length → ¬length < 0 → d.pool = none →
      position + 1 + length.toNatClampNeg ≤ program.size →
      StringRead d program position
        (.ok (Text.ofUtf16 ((program.extract (position + 1)
          (position + 1 + length.toNatClampNeg)).toList.map d.chars.codeUnit),
          position + 1 + length.toNatClampNeg))

theorem stringRead (d : Decoder) (program : Program) (position : Nat) :
    d.StringRead program position (d.stringPayload program position) := by
  cases hlength : takeSlot program position .stringLength with
  | error fault =>
      obtain ⟨hsize, rfl⟩ := takeSlot_eq_error_iff.mp hlength
      rw [stringPayload, hlength]
      exact .noLength hsize
  | ok read =>
      obtain ⟨length, _⟩ := read
      obtain ⟨hget, rfl⟩ := takeSlot_eq_ok_iff.mp hlength
      have hposition := (Array.getElem?_eq_some_iff.mp hget).1
      rw [stringPayload_eq hget]
      by_cases hsign : length < 0
      · rw [if_pos hsign]
        exact .negative hget hsign
      rw [if_neg hsign]
      cases hpool : d.pool with
      | none =>
          simp only [inlineUnits]
          by_cases hsize : program.size < position + 1 + length.toNatClampNeg
          · rw [if_pos hsize]
            exact .cutOff hget hsign hpool hsize
          · rw [if_neg hsize]
            exact .units hget hsign hpool (Nat.not_lt.mp hsize)
      | some pool =>
          simp only
          cases hoffset : takeSlot program (position + 1) .poolOffset with
          | error fault =>
              obtain ⟨hsize, rfl⟩ := takeSlot_eq_error_iff.mp hoffset
              rw [pooledString, hoffset]
              exact .noOffset hget hsign hpool (Nat.le_antisymm hsize hposition)
          | ok read =>
              obtain ⟨offset, _⟩ := read
              obtain ⟨hget', rfl⟩ := takeSlot_eq_ok_iff.mp hoffset
              rw [pooledString_eq hget' hsign]
              by_cases hinside : 0 ≤ offset.toInt ∧ offset.toInt + length.toInt ≤ pool.length
              · rw [if_pos hinside]
                exact .pooled hget hsign hpool hget' hinside
              · rw [if_neg hinside]
                exact .outside hget hsign hpool hget' hinside

/-! ### Bounds -/

theorem slot_bounds {reference : Nat} (h : slot program position = .ok (reference, after)) :
    position < after ∧ after ≤ program.size := by
  obtain ⟨raw, hraw, -, -, rfl⟩ := slot_eq_ok_iff.mp h
  exact ⟨Nat.lt_succ_self _, (Array.getElem?_eq_some_iff.mp hraw).1⟩

/-- The words of a float lie in the program. -/
theorem floatPayload_bounds {x : Binary64}
    (h : floatPayload program position = .ok (x, after)) :
    position < after ∧ after ≤ program.size := by
  have hread := floatRead program position
  rw [h] at hread
  cases hread with
  | words hhigh hlow =>
      have := (Array.getElem?_eq_some_iff.mp hlow).1
      omega

/-- The length and the content of a string lie in the program. -/
theorem stringPayload_bounds {s : String}
    (h : d.stringPayload program position = .ok (s, after)) :
    position < after ∧ after ≤ program.size := by
  have hread := d.stringRead program position
  rw [h] at hread
  cases hread with
  | pooled hlength _ _ hoffset =>
      have := (Array.getElem?_eq_some_iff.mp hoffset).1
      omega
  | units hlength _ _ hsize =>
      omega

end Decoder

end TaggedBytecode
