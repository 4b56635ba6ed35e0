import TaggedBytecode.Disassembly.Scan
import TaggedBytecode.Proofs.Constant.Leading

/-!
# Operand Layouts

The **layout** of an instruction is a number of constants and, if it writes, a destination slot
after them. Operands laid out so **span** the slots from one position to another if a reader
that takes them in turn gets from the one to the other. A scan decodes an instruction without
a failure just if its layout spans some slots, and then it goes on behind them.

## Main definitions

* `Decoder.Spans` — the slots that a layout spans.

## Main results

* `Decoder.Spans.append` — constants in front of a layout.
* `Decoder.spans_iff_of_slots` — when a constant and a destination span two references.
* `Disassembler.exists_decodeAt` — what a scan makes of an instruction.
-/

namespace TaggedBytecode

namespace Decoder

/-- The operands of a layout, read one after the other, take the reader from one position to
another. -/
inductive Spans (d : Decoder) (program : Program) :
    (count : Nat) → (writes : Bool) → Nat → Nat → Prop
  | none (p : Nat) : Spans d program 0 false p p
  | destination {reference p q : Nat} : slot program p = .ok (reference, q) →
      Spans d program 0 true p q
  | constant {c : Constant} {count p q r : Nat} {writes : Bool} :
      d.constant program p = .ok (c, q) → Spans d program count writes q r →
      Spans d program (count + 1) writes p r

variable {d : Decoder} {program : Program} {count k p q r : Nat} {writes : Bool}

theorem Spans.eq_of_none (h : d.Spans program 0 false p q) : p = q := by
  cases h
  rfl

/-- Constants in front of a layout. Induction on the constants. -/
theorem Spans.append (h : d.Spans program k false p q) (hrest : d.Spans program count writes q r) :
    d.Spans program (count + k) writes p r := by
  induction k generalizing p with
  | zero =>
      rw [h.eq_of_none]
      exact hrest
  | succ k ih =>
      cases h with
      | constant hc htail => exact .constant hc (ih htail)

/-- A layout of a constant and a destination spans two references just if the first of them
announces no payload. -/
theorem spans_iff_of_slots (hvalid : d.markers.validate = .ok ()) {x y : Nat}
    (hx : slot program p = .ok (x, q)) (hy : slot program q = .ok (y, r)) :
    d.Spans program 1 true p r ↔
      ¬∃ raw, program[p]? = some raw ∧ d.markers.AnnouncesPayload raw := by
  obtain ⟨raw, hraw, -, -, rfl⟩ := slot_eq_ok_iff.mp hx
  obtain ⟨-, -, -, -, rfl⟩ := slot_eq_ok_iff.mp hy
  constructor
  · rintro h ⟨raw', hraw', hpayload⟩
    cases h with
    | constant hc htail =>
        cases htail with
        | destination hslot =>
            obtain ⟨-, -, -, -, hafter⟩ := slot_eq_ok_iff.mp hslot
            have := lt_of_constant hvalid hc hraw' hpayload
            omega
  · intro h
    obtain ⟨c, hc⟩ := constant_of_slot hx hraw fun hpayload => h ⟨raw, hraw, hpayload⟩
    exact .constant hc (.destination hy)

end Decoder

namespace Disassembler

variable {decoder : Decoder} {program : Program} {count p q : Nat} {writes : Bool}

theorem readDestination_iff :
    (readDestination program writes p).complete = true ∧
        (readDestination program writes p).position = q ↔
      decoder.Spans program 0 writes p q := by
  constructor
  · intro h
    cases writes with
    | false =>
        obtain rfl : p = q := h.2
        exact .none p
    | true =>
        simp only [readDestination, if_true] at h
        split at h
        · rename_i hslot
          obtain ⟨-, rfl⟩ := h
          exact .destination hslot
        · exact absurd h.1 Bool.false_ne_true
  · rintro (_ | hslot)
    · exact ⟨rfl, rfl⟩
    · simp [readDestination, hslot]

/-- Operands are decoded without a failure just if their layout spans some slots, and they end
where it does. -/
theorem readOperands_iff :
    (readOperands program decoder writes count p).complete = true ∧
        (readOperands program decoder writes count p).position = q ↔
      decoder.Spans program count writes p q := by
  induction count generalizing p with
  | zero => exact readDestination_iff
  | succ count ih =>
      rw [readOperands]
      split
      · rename_i c after hc
        simp only [OperandRun.cons, ih]
        constructor
        · exact .constant hc
        · rintro (_ | _ | ⟨hc', htail⟩)
          obtain ⟨-, rfl⟩ := Prod.mk.inj (Except.ok.inj (hc.symm.trans hc'))
          exact htail
      · rename_i hfault
        constructor
        · exact fun h => absurd h.1 Bool.false_ne_true
        · rintro (_ | _ | ⟨hc, -⟩)
          rw [hfault] at hc
          cases hc

/-- What a scan makes of an opcode that it knows: it decodes the operands without a failure
just if their layout spans the slots up to where it goes on. -/
theorem exists_decodeAt {d : Disassembler} {opcode : Int32} {info : OpcodeMeta}
    (h : d.opcodes.get? opcode = some info) (address : Nat) :
    ∃ listed position, d.decodeAt address opcode = some (listed, position) ∧
      ∀ q, (listed.failed = false ∧ q = position) ↔
        d.decoder.Spans d.program info.operands.operandCount info.writes (address + 1) q := by
  refine ⟨_, _, by rw [decodeAt, h, Option.map_some], fun q => ?_⟩
  rw [← readOperands_iff, Bool.not_eq_false', eq_comm (a := q)]

end Disassembler

end TaggedBytecode
