import TaggedBytecode.Proofs.Constant.Leading

/-!
# Places of Failures

Reading fails for one of two reasons. The program can end before what is read is complete, or a
slot can hold a value that is rejected: a length that is negative, an offset that leaves the pool,
or a reference that is negative. The fault says at which place this came to light, by a position
that each check takes from where its reader has got to.

For an early end the place is the end of the program, and for a length or an offset it is the
slot itself. A negative reference is rejected with its slot taken, and is reported at the slot
behind it, which may hold anything or not exist.

## Main definitions

* `Decoder.extent` — the number of slots of a constant, as far as its slots tell.
* `Decoder.Rejects`, `RejectsReference` — the slots with a value that is rejected, and why.
* `ConstantError.reportedAt` — the place that is reported for a slot.
* `Located` — what a read comes to: complete, cut off, or rejected, and each at its place.

## Main results

* `Decoder.located_constant`, `Decoder.located_slot` — both readers.
* `Decoder.failures_located` — where both readers fail, and the place they report.
* `Decoder.not_located_negativeReference` — a fault that does not name the slot it is about.
-/

namespace TaggedBytecode

namespace ConstantError

/-- The causes of a program that ended too early. -/
inductive EndsEarly : ConstantError → Prop
  | ended (awaited : Awaited) : EndsEarly (.ended awaited)
  | insideString (length : Nat) : EndsEarly (.insideString length)

/-- The value that is rejected. -/
def rejected? : ConstantError → Option Int32
  | negativeLength length => some length
  | poolSlice offset _ _ => some offset
  | negativeReference raw => some raw
  | _ => none

/-- The place that is reported for a slot that is rejected: the slot, or for a negative reference
the slot behind it. -/
def reportedAt (index : Nat) : ConstantError → Nat
  | negativeReference _ => index + 1
  | _ => index

end ConstantError

/-! ### Outcomes -/

/-- What a read comes to, if what is read ends at `stop` and `rejects` says which of its slots are
rejected and why. An early end goes before any rejection. -/
inductive Located {α : Type} (program : Program) (stop : Nat)
    (rejects : Nat → ConstantError → Prop) : Except Fault (α × Nat) → Prop
  | cutOff {cause : ConstantError} : program.size < stop → cause.EndsEarly →
      Located program stop rejects (.error (.constant program.size cause))
  | rejected {index : Nat} {cause : ConstantError} : stop ≤ program.size → rejects index cause →
      Located program stop rejects (.error (.constant (cause.reportedAt index) cause))
  | complete {a : α} : stop ≤ program.size → (∀ index cause, ¬rejects index cause) →
      Located program stop rejects (.ok (a, stop))

namespace Located

variable {α β : Type} {program : Program} {stop : Nat} {rejects : Nat → ConstantError → Prop}

/-- What is made of the value that is read makes no difference. -/
theorem map {read : Except Fault (α × Nat)} (h : Located program stop rejects read) (f : α → β) :
    Located program stop rejects (read.map fun (a, after) => (f a, after)) := by
  cases h with
  | cutOff hstop hcause => exact .cutOff hstop hcause
  | rejected hstop hrejects => exact .rejected hstop hrejects
  | complete hstop hnone => exact .complete hstop hnone

end Located

namespace Decoder

variable {d : Decoder} {program : Program} {position : Nat} {raw : Int32}

/-! ### Constants -/

/-- The number of slots of a string behind its marker: its length, and if the length can be told
its offset or its units. -/
def stringExtent (d : Decoder) (program : Program) (position : Nat) : Nat :=
  match program[position]? with
  | none => 1
  | some length =>
    if length < 0 then 1
    else
      match d.pool with
      | none => 1 + length.toNatClampNeg
      | some _ => 2

/-- The number of slots of a constant, as far as its slots tell. -/
def extent (d : Decoder) (program : Program) (position : Nat) : Nat :=
  match program[position]?.map d.markers.lead with
  | some (.marked .float) => 3
  | some (.marked .string) => 1 + d.stringExtent program (position + 1)
  | _ => 1

/-- A slot that is read as a reference is rejected if it is negative. -/
inductive RejectsReference (program : Program) (position : Nat) : Nat → ConstantError → Prop
  | negative {raw : Int32} : program[position]? = some raw → raw < 0 →
      RejectsReference program position position (.negativeReference raw)

/-- The slots of a string that are rejected, behind its marker. -/
inductive RejectsString (d : Decoder) (program : Program) (position : Nat) :
    Nat → ConstantError → Prop
  | length {length : Int32} : program[position]? = some length → length < 0 →
      RejectsString d program position position (.negativeLength length)
  | offset {length offset : Int32} {pool : StringPool} : program[position]? = some length →
      ¬length < 0 → d.pool = some pool → program[position + 1]? = some offset →
      ¬(0 ≤ offset.toInt ∧ offset.toInt + length.toInt ≤ pool.length) →
      RejectsString d program position (position + 1) (.poolSlice offset length pool.length)

/-- The slots of a constant that are rejected: only strings and references have such. -/
def Rejects (d : Decoder) (program : Program) (position : Nat) : Nat → ConstantError → Prop :=
  match program[position]?.map d.markers.lead with
  | some (.marked .string) => d.RejectsString program (position + 1)
  | some .reference => RejectsReference program position
  | _ => fun _ _ => False

/-- A slot that can be taken is a reference, or is rejected. -/
theorem located_reference {α : Type} (f : Nat → α) (hraw : program[position]? = some raw) :
    Located program (position + 1) (RejectsReference program position)
      ((slotReference raw (position + 1)).map fun reference => (f reference, position + 1)) := by
  have hposition := (Array.getElem?_eq_some_iff.mp hraw).1
  rw [slotReference]
  by_cases hsign : raw < 0
  · rw [if_pos hsign]
    exact .rejected hposition (RejectsReference.negative hraw hsign)
  · rw [if_neg hsign]
    refine .complete hposition fun index cause h => ?_
    cases h with
    | negative hraw' hsign' => exact hsign (Option.some.inj (hraw.symm.trans hraw') ▸ hsign')

theorem located_floatPayload (hposition : position ≤ program.size) :
    Located program (position + 2) (fun _ _ => False) (floatPayload program position) := by
  have hread := floatRead program position
  generalize floatPayload program position = outcome at hread
  cases hread with
  | noHigh hsize =>
      obtain rfl : position = program.size := Nat.le_antisymm hposition hsize
      exact .cutOff (by omega) (.ended _)
  | noLow hsize => exact hsize ▸ .cutOff (by omega) (.ended _)
  | words _ hlow =>
      have := (Array.getElem?_eq_some_iff.mp hlow).1
      exact .complete (by omega) fun _ _ => id

theorem located_stringPayload (hposition : position ≤ program.size) :
    Located program (position + d.stringExtent program position) (d.RejectsString program position)
      (d.stringPayload program position) := by
  have hread := d.stringRead program position
  generalize d.stringPayload program position = outcome at hread
  rw [stringExtent]
  cases hread with
  | noLength hsize =>
      obtain rfl : position = program.size := Nat.le_antisymm hposition hsize
      rw [Array.getElem?_eq_none hsize]
      exact .cutOff (Nat.lt_succ_self _) (.ended _)
  | negative hlength hsign =>
      simp only [hlength, if_pos hsign]
      exact .rejected (Array.getElem?_eq_some_iff.mp hlength).1
        (RejectsString.length hlength hsign)
  | noOffset hlength hsign hpool hsize =>
      simp only [hlength, if_neg hsign, hpool]
      exact hsize ▸ .cutOff (by omega) (.ended _)
  | outside hlength hsign hpool hoffset houtside =>
      simp only [hlength, if_neg hsign, hpool]
      exact .rejected (Array.getElem?_eq_some_iff.mp hoffset).1
        (RejectsString.offset hlength hsign hpool hoffset houtside)
  | pooled hlength hsign hpool hoffset hinside =>
      simp only [hlength, if_neg hsign, hpool]
      refine .complete (Array.getElem?_eq_some_iff.mp hoffset).1 fun index cause h => ?_
      cases h with
      | length hlength' hsign' =>
          obtain rfl := Option.some.inj (hlength.symm.trans hlength')
          exact hsign hsign'
      | offset hlength' _ hpool' hoffset' houtside =>
          obtain rfl := Option.some.inj (hlength.symm.trans hlength')
          obtain rfl := Option.some.inj (hpool.symm.trans hpool')
          obtain rfl := Option.some.inj (hoffset.symm.trans hoffset')
          exact houtside hinside
  | cutOff hlength hsign hpool hsize =>
      simp only [hlength, if_neg hsign, hpool]
      exact .cutOff (by omega) (.insideString _)
  | units hlength hsign hpool hsize =>
      simp only [hlength, if_neg hsign, hpool, ← Nat.add_assoc]
      refine .complete hsize fun index cause h => ?_
      cases h with
      | length hlength' hsign' =>
          obtain rfl := Option.some.inj (hlength.symm.trans hlength')
          exact hsign hsign'
      | offset _ _ hpool' =>
          rw [hpool] at hpool'
          cases hpool'

/-- What a marker announces is read as far as its payload tells. -/
theorem located_announced {marker : Marker} (hraw : program[position]? = some raw)
    (hlead : d.markers.lead raw = .marked marker) :
    Located program (position + d.extent program position) (d.Rejects program position)
      (d.announced program (position + 1) marker) := by
  have hposition := (Array.getElem?_eq_some_iff.mp hraw).1
  rw [extent, Rejects, hraw, Option.map_some, hlead]
  cases marker with
  | float => exact (located_floatPayload hposition).map Constant.float64
  | string =>
      rw [← Nat.add_assoc]
      exact (located_stringPayload hposition).map Constant.str
  | _ => exact .complete hposition fun _ _ => id

/-- **A constant is read as far as its slots tell.** -/
theorem located_constant (d : Decoder) (hposition : position ≤ program.size) :
    Located program (position + d.extent program position) (d.Rejects program position)
      (d.constant program position) := by
  cases hraw : program[position]? with
  | none =>
      have hsize := Array.getElem?_eq_none_iff.mp hraw
      obtain rfl : position = program.size := Nat.le_antisymm hposition hsize
      rw [constant_of_size hsize, extent, hraw]
      exact .cutOff (Nat.lt_succ_self _) (.ended _)
  | some raw =>
      rw [constant_eq_led hraw]
      cases hlead : d.markers.lead raw with
      | marked marker => exact located_announced hraw hlead
      | integer =>
          rw [extent, Rejects, hraw, Option.map_some, hlead]
          exact .complete (Array.getElem?_eq_some_iff.mp hraw).1 fun _ _ => id
      | reference =>
          rw [extent, Rejects, hraw, Option.map_some, hlead]
          exact located_reference Constant.varRef hraw

/-- **A reference is one slot.** -/
theorem located_slot (hposition : position ≤ program.size) :
    Located program (position + 1) (RejectsReference program position) (slot program position) := by
  cases hraw : program[position]? with
  | none =>
      have hsize := Array.getElem?_eq_none_iff.mp hraw
      obtain rfl : position = program.size := Nat.le_antisymm hposition hsize
      rw [slot_of_size hsize]
      exact .cutOff (Nat.lt_succ_self _) (.ended _)
  | some raw =>
      exact slot_eq hraw ▸ located_reference id hraw

/-- A slot that is rejected holds the value that is. -/
theorem rejected?_of_rejectsReference {index : Nat} {cause : ConstantError}
    (h : RejectsReference program position index cause) :
    program[index]? = cause.rejected? ∧ cause.rejected?.isSome = true := by
  cases h with
  | negative hraw _ => exact ⟨hraw, rfl⟩

theorem rejected?_of_rejects {index : Nat} {cause : ConstantError}
    (h : d.Rejects program position index cause) :
    program[index]? = cause.rejected? ∧ cause.rejected?.isSome = true := by
  revert h
  fun_cases Decoder.Rejects d program position <;> intro h
  · cases h with
    | length hlength _ => exact ⟨hlength, rfl⟩
    | offset _ _ _ hoffset _ => exact ⟨hoffset, rfl⟩
  · exact rejected?_of_rejectsReference h
  · cases h

/-- **Where reads fail.** From any position up to the end of a program, under any table, with any
character transform and with or without a pool, both readers come to one of three ends. If the
program ends before what is read is complete, the fault is at the end of the program. Otherwise,
if a slot is rejected, the fault is at that slot, which holds the value that is rejected, but at
the slot behind it if the value is a negative reference. Otherwise the read succeeds and ends
behind the last slot. -/
theorem failures_located (d : Decoder) (hposition : position ≤ program.size) :
    Located program (position + d.extent program position) (d.Rejects program position)
      (d.constant program position) ∧
    Located program (position + 1) (RejectsReference program position) (slot program position) ∧
    ∀ index cause,
      d.Rejects program position index cause ∨ RejectsReference program position index cause →
        program[index]? = cause.rejected? ∧ cause.rejected?.isSome = true := by
  refine ⟨d.located_constant hposition, located_slot hposition, fun index cause => ?_⟩
  rintro (h | h)
  · exact rejected?_of_rejects h
  · exact rejected?_of_rejectsReference h

/-- A pooled string that leaves the pool by one unit, with its offset behind the length. -/
theorem failures_located_poolSlice :
    1 ≤ (#[37, 2, 3, 3] : Program).size ∧
      ({ pool := some (.ofText "hello") } : Decoder).constant #[37, 2, 3, 3] 1 =
        .error (.constant 3 (.poolSlice 3 3 5)) ∧
      Located #[37, 2, 3, 3] 4
        (({ pool := some (.ofText "hello") } : Decoder).Rejects #[37, 2, 3, 3] 1)
        (.error (.constant 3 (.poolSlice 3 3 5)) : Except Fault (Constant × Nat)) := by
  have hposition : 1 ≤ (#[37, 2, 3, 3] : Program).size := by decide
  have hread : ({ pool := some (.ofText "hello") } : Decoder).constant #[37, 2, 3, 3] 1 =
      .error (.constant 3 (.poolSlice 3 3 5)) := by cbv
  have hlocated := (failures_located { pool := some (.ofText "hello") } hposition).1
  rw [hread] at hlocated
  exact ⟨hposition, hread, hlocated⟩

/-- A small integer, a reference that is negative and the end of a run. -/
def negativeReference : Program := #[5, -64, 37]

/-- A fault that does not name the slot it is about: the negative reference is in slot 1, where
the constant begins and ends, and the fault of either reader names slot 2. -/
theorem not_located_negativeReference :
    ({} : Decoder).constant negativeReference 1 =
        .error (.constant 2 (.negativeReference (-64))) ∧
      slot negativeReference 1 = .error (.constant 2 (.negativeReference (-64))) ∧
      1 + ({} : Decoder).extent negativeReference 1 = 2 ∧ negativeReference.size = 3 ∧
      negativeReference[1]? = some (-64 : Int32) ∧
      ({} : Decoder).Rejects negativeReference 1 1 (.negativeReference (-64)) ∧
      ∀ index cause, ({} : Decoder).Rejects negativeReference 1 index cause → index ≠ 2 := by
  have hraw : negativeReference[1]? = some (-64 : Int32) := rfl
  refine ⟨rfl, rfl, rfl, rfl, hraw, RejectsReference.negative hraw (by decide), ?_⟩
  intro index cause h
  have hreference : RejectsReference negativeReference 1 index cause := h
  cases hreference with
  | negative _ _ => decide

end Decoder

end TaggedBytecode
