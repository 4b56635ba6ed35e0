import Mathlib.Data.List.Range
import TaggedBytecode.Proofs.Disassembly.Layout

/-!
# Tilings

A scan **tiles** its program. An instruction owns the slots from its address up to the position
at which the scan goes on behind it, and every slot of the program is either owned by one
instruction or lies in a **gap**, where it is skipped because its value is no opcode. This holds
of any program, garbage included, because an operand that cannot be decoded is not consumed: the
scan goes on at its first slot.

## Main definitions

* `Decoder.Spells` — the slots that spell some constants.
* `Disassembler.Lists` — what a scan lists at an address, and where it goes on.
* `Disassembler.scanAfter` — the scan after some instructions.
* `Disassembler.Scans` — a whole scan with its gaps.

## Main results

* `Disassembler.readOperands_shows` — the operands of an instruction, complete or not.
* `Disassembler.collect_scans` — the instructions and the gaps of a scan.
* `Disassembler.disassembly_tiles_program` — the disassembly of a program.
-/

namespace TaggedBytecode

namespace Decoder

/-- The slots from one position to another spell some constants, one after the other. -/
inductive Spells (d : Decoder) (program : Program) : Nat → List Constant → Nat → Prop
  | nil (p : Nat) : Spells d program p [] p
  | cons {p q r : Nat} {c : Constant} {constants : List Constant} :
      d.constant program p = .ok (c, q) → Spells d program q constants r →
      Spells d program p (c :: constants) r

variable {d : Decoder} {program : Program} {p q : Nat} {constants : List Constant}

theorem Spells.le (h : d.Spells program p constants q) : p ≤ q := by
  induction h with
  | nil => exact Nat.le_refl _
  | cons hc _ ih => exact Nat.le_trans (Nat.le_of_lt (constant_bounds hc).1) ih

theorem Spells.le_size (h : d.Spells program p constants q) (hp : p ≤ program.size) :
    q ≤ program.size := by
  induction h with
  | nil => exact hp
  | cons hc _ ih => exact ih (constant_bounds hc).2

end Decoder

namespace Disassembler

/-! ### Operands -/

/-- The operands of an instruction with `count` constants, read from `p` on. They are
**complete**, or they stop in front of the first operand that cannot be decoded and show the slot
at which it starts. -/
inductive Shows (d : Decoder) (program : Program) (count : Nat) (writes : Bool) (p : Nat) :
    OperandRun → Prop
  | complete {constants : List Constant} {q : Nat} :
      d.Spells program p constants q → constants.length = count → writes = false →
      Shows d program count writes p ⟨constants.map .constant, q, true⟩
  | completeWriting {constants : List Constant} {q slot r : Nat} :
      d.Spells program p constants q → constants.length = count → writes = true →
      Decoder.slot program q = .ok (slot, r) →
      Shows d program count writes p ⟨constants.map .constant ++ [.destination slot], r, true⟩
  | noConstant {constants : List Constant} {q : Nat} {fault : Fault} :
      d.Spells program p constants q → constants.length < count →
      d.constant program q = .error fault →
      Shows d program count writes p
        ⟨constants.map .constant ++ (program[q]?.map .raw).toList, q, false⟩
  | noDestination {constants : List Constant} {q : Nat} {fault : Fault} :
      d.Spells program p constants q → constants.length = count → writes = true →
      Decoder.slot program q = .error fault →
      Shows d program count writes p
        ⟨constants.map .constant ++ (program[q]?.map .raw).toList, q, false⟩

variable {decoder : Decoder} {program : Program} {count p : Nat} {writes : Bool}
  {run : OperandRun}

theorem Shows.cons {c : Constant} {q : Nat} (hc : decoder.constant program p = .ok (c, q))
    (h : Shows decoder program count writes q run) :
    Shows decoder program (count + 1) writes p (run.cons (.constant c)) := by
  cases h with
  | complete hspells hlength hwrites =>
      exact .complete (.cons hc hspells) (congrArg (· + 1) hlength) hwrites
  | completeWriting hspells hlength hwrites hslot =>
      exact .completeWriting (.cons hc hspells) (congrArg (· + 1) hlength) hwrites hslot
  | noConstant hspells hlength hfault =>
      exact .noConstant (.cons hc hspells) (Nat.succ_lt_succ hlength) hfault
  | noDestination hspells hlength hwrites hfault =>
      exact .noDestination (.cons hc hspells) (congrArg (· + 1) hlength) hwrites hfault

/-- What is read is what the slots spell. Induction on the constants. -/
theorem readOperands_shows (decoder : Decoder) (program : Program) (writes : Bool)
    (count p : Nat) :
    Shows decoder program count writes p (readOperands program decoder writes count p) := by
  induction count generalizing p with
  | zero =>
      cases writes with
      | false => exact .complete (.nil p) rfl rfl
      | true =>
          cases hslot : Decoder.slot program p with
          | ok read =>
              simp only [readOperands, readDestination, if_true, hslot]
              exact .completeWriting (.nil p) rfl rfl hslot
          | error fault =>
              simp only [readOperands, readDestination, if_true, hslot]
              exact .noDestination (.nil p) rfl rfl hslot
  | succ count ih =>
      cases hc : decoder.constant program p with
      | ok read =>
          simp only [readOperands, hc]
          exact (ih read.2).cons hc
      | error fault =>
          simp only [readOperands, hc]
          exact .noConstant (.nil p) (Nat.succ_pos _) hc

theorem Shows.bounds (h : Shows decoder program count writes p run) (hp : p ≤ program.size) :
    p ≤ run.position ∧ run.position ≤ program.size := by
  cases h with
  | completeWriting hspells _ _ hslot =>
      have := hspells.le
      have := Decoder.slot_bounds hslot
      simp only
      omega
  | complete hspells | noConstant hspells | noDestination hspells =>
      exact ⟨hspells.le, hspells.le_size hp⟩

/-! ### Instructions and gaps -/

/-- What a scan lists at an address, given the position `stop` at which it goes on. The opcode
is the slot there, the map knows it, and the operands are what the slots behind it show. -/
structure Lists (d : Disassembler) (i : ListedInstruction) (stop : Nat) : Prop where
  opcode : d.program[i.address]? = some i.opcode
  operands : ∃ info, d.opcodes.get? i.opcode = some info ∧ i.name = info.name ∧
    i.operation = info.operation ∧
    Shows d.decoder d.program info.operands.operandCount info.writes (i.address + 1)
      ⟨i.operands, stop, !i.failed⟩

/-- The slots from `p` up to `q` are skipped: they lie in the program, and none is an opcode. -/
def Gap (d : Disassembler) (p q : Nat) : Prop :=
  ∀ x, p ≤ x → x < q → ∃ raw, d.program[x]? = some raw ∧ d.opcodes.get? raw = none

variable {d : Disassembler} {i : ListedInstruction} {stop q : Nat}

theorem Lists.bounds (h : d.Lists i stop) : i.address < stop ∧ stop ≤ d.program.size := by
  obtain ⟨info, -, -, -, hshows⟩ := h.operands
  have haddress := (Array.getElem?_eq_some_iff.mp h.opcode).1
  exact hshows.bounds haddress

theorem lists_of_decodeAt {opcode : Int32} {address : Nat}
    (hopcode : d.program[address]? = some opcode)
    (h : d.decodeAt address opcode = some (i, stop)) : i.address = address ∧ d.Lists i stop := by
  simp only [decodeAt, Option.map_eq_some_iff, Prod.mk.injEq] at h
  obtain ⟨info, hinfo, rfl, rfl⟩ := h
  refine ⟨rfl, hopcode, info, hinfo, rfl, rfl, ?_⟩
  simp only [Bool.not_not]
  exact readOperands_shows _ _ _ _ _

theorem Gap.cons {opcode : Int32} (hopcode : d.program[p]? = some opcode)
    (hskipped : d.opcodes.get? opcode = none) (h : d.Gap (p + 1) q) : d.Gap p q := by
  intro x hp hq
  rcases Nat.eq_or_lt_of_le hp with rfl | hlt
  · exact ⟨opcode, hopcode, hskipped⟩
  · exact h x hlt hq

/-! ### The next instruction -/

/-- What a scan comes to next: an instruction behind a gap, or the end of the program. -/
inductive Seeks (d : Disassembler) (scan : Scan) : Option ListedInstruction × Scan → Prop
  | found {i : ListedInstruction} {stop skipped : Nat} : scan.position ≤ i.address →
      d.Gap scan.position i.address → d.Lists i stop →
      skipped + scan.position = scan.skipped + i.address →
      Seeks d scan (some i, ⟨stop, scan.emitted + 1, skipped⟩)
  | ended {skipped : Nat} : scan.position ≤ d.program.size →
      d.Gap scan.position d.program.size →
      skipped + scan.position = scan.skipped + d.program.size →
      Seeks d scan (none, ⟨d.program.size, scan.emitted, skipped⟩)

/-- A slot that is no opcode is skipped first. -/
theorem Seeks.skip {opcode : Int32} {scan : Scan} {result : Option ListedInstruction × Scan}
    (hopcode : d.program[scan.position]? = some opcode) (hskipped : d.opcodes.get? opcode = none)
    (h : d.Seeks ⟨scan.position + 1, scan.emitted, scan.skipped + 1⟩ result) :
    d.Seeks scan result := by
  cases h with
  | found hle hgap hlists hcount =>
      simp only at hle hcount
      exact .found (Nat.le_of_succ_le hle) (hgap.cons hopcode hskipped) hlists (by omega)
  | ended hle hgap hcount =>
      simp only at hle hcount
      exact .ended (Nat.le_of_succ_le hle) (hgap.cons hopcode hskipped) (by omega)

/-- Seeking with fuel for all slots that are left. Induction on the fuel. -/
theorem seek_seeks {fuel : Nat} {scan : Scan} (hfuel : fuel + scan.position = d.program.size) :
    d.Seeks scan (d.seek fuel scan) := by
  induction fuel generalizing scan with
  | zero =>
      obtain ⟨position, emitted, skipped⟩ := scan
      obtain rfl : position = d.program.size := by simpa using hfuel
      exact .ended (Nat.le_refl _) (fun x hp hq => absurd hp (Nat.not_le_of_lt hq)) rfl
  | succ fuel ih =>
      have hlt : scan.position < d.program.size := by omega
      have hopcode := Array.getElem?_eq_getElem hlt
      simp only [seek, hopcode]
      cases hdecode : d.decodeAt scan.position d.program[scan.position] with
      | some listed =>
          obtain ⟨haddress, hlists⟩ := lists_of_decodeAt hopcode hdecode
          refine .found (Nat.le_of_eq haddress.symm) (fun x hp hq => ?_) hlists (by rw [haddress])
          exact absurd hp (Nat.not_le_of_lt (haddress ▸ hq))
      | none =>
          have hskipped := Option.map_eq_none_iff.mp hdecode
          exact (ih (by simp only; omega)).skip hopcode hskipped

theorem next_eq_seek (hlimit : d.limit = none) (scan : Scan) :
    d.next scan = d.seek (d.program.size - scan.position) scan := by
  simp [next, hlimit]

theorem next_seeks (hlimit : d.limit = none) {scan : Scan}
    (hscan : scan.position ≤ d.program.size) : d.Seeks scan (d.next scan) := by
  rw [next_eq_seek hlimit]
  exact seek_seeks (by omega)

/-- A scan that has come to its end stays there. -/
theorem next_of_size (hlimit : d.limit = none) {scan : Scan}
    (hscan : scan.position = d.program.size) : d.next scan = (none, scan) := by
  rw [next_eq_seek hlimit, hscan, Nat.sub_self, seek]

/-! ### Whole scans -/

/-- A whole scan, with the positions of the slots that it skips. -/
inductive Scans (d : Disassembler) : Scan → List ListedInstruction → List Nat → Scan → Prop
  | ended {scan last : Scan} : d.next scan = (none, last) → d.Seeks scan (none, last) →
      Scans d scan [] (List.range' scan.position (d.program.size - scan.position)) last
  | listed {scan next last : Scan} {i : ListedInstruction} {rest : List ListedInstruction}
      {gaps : List Nat} : d.next scan = (some i, next) → d.Seeks scan (some i, next) →
      Scans d next rest gaps last →
      Scans d scan (i :: rest)
        (List.range' scan.position (i.address - scan.position) ++ gaps) last

/-- Collecting with fuel for all slots that are left. Induction on the fuel: every instruction
takes at least one slot. -/
theorem collect_scans (hlimit : d.limit = none) {fuel : Nat} {scan : Scan}
    (hscan : scan.position ≤ d.program.size) (hfuel : d.program.size < fuel + scan.position) :
    ∃ gaps, d.Scans scan (d.collect fuel scan).1 gaps (d.collect fuel scan).2 := by
  induction fuel generalizing scan with
  | zero => omega
  | succ fuel ih =>
      have hseeks := next_seeks hlimit hscan
      cases hnext : d.next scan with
      | mk found next =>
          rw [hnext] at hseeks
          simp only [collect, hnext]
          cases found with
          | none => exact ⟨_, .ended hnext hseeks⟩
          | some i =>
              have hbounds : scan.position < next.position ∧ next.position ≤ d.program.size := by
                cases hseeks with
                | found hle _ hlists _ =>
                    have := hlists.bounds
                    simp only
                    omega
              obtain ⟨gaps, hscans⟩ := ih hbounds.2 (by omega)
              exact ⟨_, .listed hnext hseeks hscans⟩

/-- The scan after some instructions. -/
def scanAfter (d : Disassembler) : (count : Nat) → Scan → Scan
  | 0, scan => scan
  | count + 1, scan => d.scanAfter count (d.next scan).2

/-- Instruction number `k` of a scan owns the slots from its address up to the position at which
the scan goes on. -/
def Owns (d : Disassembler) (scan : Scan) (k x : Nat) : Prop :=
  ∃ i, (d.next (d.scanAfter k scan)).1 = some i ∧ i.address ≤ x ∧
    x < (d.scanAfter (k + 1) scan).position

variable {scan last : Scan} {listed : List ListedInstruction} {gaps : List Nat}

theorem scanAfter_of_size (hlimit : d.limit = none) (hscan : scan.position = d.program.size)
    (k : Nat) : d.scanAfter k scan = scan := by
  induction k with
  | zero => rfl
  | succ k ih => rw [scanAfter, next_of_size hlimit hscan, ih]

/-- The end of a scan. -/
theorem Scans.last_eq (h : d.Scans scan listed gaps last) :
    last = ⟨d.program.size, scan.emitted + listed.length, scan.skipped + gaps.length⟩ := by
  induction h with
  | ended hnext hseeks =>
      cases hseeks with
      | ended hle _ hcount =>
          simp only [List.length_nil, List.length_range', Scan.mk.injEq, true_and]
          omega
  | listed hnext hseeks _ ih =>
      cases hseeks with
      | found hle _ _ hcount =>
          simp only [ih, List.length_cons, List.length_append, List.length_range',
            Scan.mk.injEq, true_and]
          omega

theorem Scans.scanAfter_eq (h : d.Scans scan listed gaps last) :
    d.scanAfter (listed.length + 1) scan = last := by
  induction h with
  | ended hnext _ => simp only [List.length_nil, scanAfter, hnext]
  | listed hnext _ _ ih => rw [List.length_cons, scanAfter, hnext, ih]

/-- The instructions of a scan are what it comes to next, time after time. -/
theorem Scans.getElem?_eq (hlimit : d.limit = none) (h : d.Scans scan listed gaps last) (k : Nat) :
    listed[k]? = (d.next (d.scanAfter k scan)).1 := by
  induction h generalizing k with
  | @ended scan last hnext hseeks =>
      have hlast : last.position = d.program.size := by
        cases hseeks with
        | ended => rfl
      cases k with
      | zero => simp only [scanAfter, hnext, List.getElem?_nil]
      | succ k =>
          rw [scanAfter, hnext, scanAfter_of_size hlimit hlast, next_of_size hlimit hlast,
            List.getElem?_nil]
  | listed hnext hseeks _ ih =>
      cases k with
      | zero => simp only [scanAfter, hnext, List.getElem?_cons_zero]
      | succ k => rw [scanAfter, hnext, List.getElem?_cons_succ, ih]

theorem Scans.lists (h : d.Scans scan listed gaps last) {k : Nat} {i : ListedInstruction}
    (hi : listed[k]? = some i) : d.Lists i (d.scanAfter (k + 1) scan).position := by
  induction h generalizing k with
  | ended => cases hi
  | listed hnext hseeks _ ih =>
      rw [scanAfter, hnext]
      cases k with
      | zero =>
          obtain rfl := Option.some.inj hi
          cases hseeks with
          | found _ _ hlists _ => exact hlists
      | succ k => exact ih hi

theorem Scans.position_le (h : d.Scans scan listed gaps last) {i : ListedInstruction}
    (hi : i ∈ listed) : scan.position ≤ i.address := by
  induction h with
  | ended => cases hi
  | listed hnext hseeks _ ih =>
      cases hseeks with
      | found hle _ hlists _ =>
          rcases List.mem_cons.mp hi with rfl | hrest
          · exact hle
          · have := ih hrest
            have := hlists.bounds
            simp only at *
            omega

theorem Scans.pairwise_address (h : d.Scans scan listed gaps last) :
    listed.Pairwise fun i j => i.address < j.address := by
  induction h with
  | ended => exact .nil
  | listed hnext hseeks hrest ih =>
      refine .cons (fun j hj => ?_) ih
      have := hrest.position_le hj
      cases hseeks with
      | found _ _ hlists _ =>
          have := hlists.bounds
          simp only at *
          omega

/-! ### Gaps -/

theorem Scans.gap_bounds (h : d.Scans scan listed gaps last) {x : Nat} (hx : x ∈ gaps) :
    scan.position ≤ x ∧ ∃ raw, d.program[x]? = some raw ∧ d.opcodes.get? raw = none := by
  induction h with
  | ended hnext hseeks =>
      cases hseeks with
      | ended hle hgap _ =>
          have hrange := List.mem_range'_1.mp hx
          exact ⟨hrange.1, hgap x hrange.1 (by omega)⟩
  | listed hnext hseeks _ ih =>
      cases hseeks with
      | found hle hgap hlists _ =>
          rcases List.mem_append.mp hx with hfirst | hrest
          · have hrange := List.mem_range'_1.mp hfirst
            exact ⟨hrange.1, hgap x hrange.1 (by omega)⟩
          · obtain ⟨hpos, hskipped⟩ := ih hrest
            have := hlists.bounds
            simp only at hpos
            exact ⟨by omega, hskipped⟩

theorem Scans.pairwise_gaps (h : d.Scans scan listed gaps last) : gaps.Pairwise (· < ·) := by
  induction h with
  | ended => exact List.pairwise_lt_range' _
  | listed hnext hseeks hrest ih =>
      refine List.pairwise_append.mpr ⟨List.pairwise_lt_range' _, ih, fun x hx y hy => ?_⟩
      have := List.mem_range'_1.mp hx
      have := (hrest.gap_bounds hy).1
      cases hseeks with
      | found hle _ hlists _ =>
          have := hlists.bounds
          simp only at *
          omega

theorem Scans.address_le_of_owns (hlimit : d.limit = none) (h : d.Scans scan listed gaps last)
    {k x : Nat} (howns : d.Owns scan k x) : scan.position ≤ x := by
  obtain ⟨i, hi, hle, -⟩ := howns
  rw [← h.getElem?_eq hlimit] at hi
  exact Nat.le_trans (h.position_le (List.mem_of_getElem? hi)) hle

/-- **Every slot that is left is owned by one instruction or lies in a gap.** Induction on the
scan: a slot is in the gap in front of the first instruction, or owned by it, or behind it. -/
theorem Scans.tiles (hlimit : d.limit = none) (h : d.Scans scan listed gaps last) {x : Nat}
    (hle : scan.position ≤ x) (hlt : x < d.program.size) :
    (x ∈ gaps ∧ ∀ k, ¬d.Owns scan k x) ∨ (x ∉ gaps ∧ ∃! k, d.Owns scan k x) := by
  induction h with
  | @ended scan last hnext hseeks =>
      refine .inl ⟨List.mem_range'_1.mpr ⟨hle, by omega⟩, fun k howns => ?_⟩
      obtain ⟨i, hi, -⟩ := howns
      rw [← (Scans.ended hnext hseeks).getElem?_eq hlimit] at hi
      cases hi
  | @listed scan next last i rest gaps hnext hseeks hrest ih =>
      have hfirst : ∀ y, d.Owns scan 0 y ↔ i.address ≤ y ∧ y < next.position := by
        intro y
        simp [Owns, scanAfter, hnext]
      have hlater : ∀ k y, d.Owns scan (k + 1) y ↔ d.Owns next k y := by
        intro k y
        simp only [Owns, scanAfter, hnext]
      have hbounds : i.address < next.position := by
        cases hseeks with
        | found _ _ hlists _ => exact hlists.bounds.1
      have hmem : x ∈ List.range' scan.position (i.address - scan.position) ++ gaps ↔
          x < i.address ∨ x ∈ gaps := by
        rw [List.mem_append, List.mem_range'_1]
        exact or_congr_left (by omega)
      rcases Nat.lt_or_ge x next.position with hx | hx
      · have hnone : ∀ k, ¬d.Owns next k x := fun k howns =>
          absurd (hrest.address_le_of_owns hlimit howns) (Nat.not_le_of_lt hx)
        rcases Nat.lt_or_ge x i.address with hi | hi
        · refine .inl ⟨hmem.mpr (.inl hi), fun k => ?_⟩
          cases k with
          | zero => exact fun howns => absurd ((hfirst x).mp howns).1 (Nat.not_le_of_lt hi)
          | succ k => exact fun howns => hnone k ((hlater k x).mp howns)
        · refine .inr ⟨fun hgap => ?_, 0, (hfirst x).mpr ⟨hi, hx⟩, fun k howns => ?_⟩
          · rcases hmem.mp hgap with hlow | hhigh
            · omega
            · exact absurd (hrest.gap_bounds hhigh).1 (Nat.not_le_of_lt hx)
          · cases k with
            | zero => rfl
            | succ k => exact absurd ((hlater k x).mp howns) (hnone k)
      · have hzero : ¬d.Owns scan 0 x := fun howns =>
          absurd ((hfirst x).mp howns).2 (Nat.not_lt_of_le hx)
        have hmem' : x ∈ List.range' scan.position (i.address - scan.position) ++ gaps ↔
            x ∈ gaps := hmem.trans (or_iff_right (by omega))
        rcases ih hx with ⟨hgap, hnone⟩ | ⟨hgap, k, howns, hunique⟩
        · refine .inl ⟨hmem'.mpr hgap, fun k => ?_⟩
          cases k with
          | zero => exact hzero
          | succ k => exact fun howns => hnone k ((hlater k x).mp howns)
        · refine .inr ⟨mt hmem'.mp hgap, k + 1, (hlater k x).mpr howns, fun j hj => ?_⟩
          cases j with
          | zero => exact absurd hj hzero
          | succ j => rw [hunique j ((hlater j x).mp hj)]

/-! ### Listed instructions -/

theorem exists_lists_of_seek {fuel : Nat} {scan next : Scan}
    (h : d.seek fuel scan = (some i, next)) : ∃ stop, d.Lists i stop := by
  induction fuel generalizing scan with
  | zero => cases h
  | succ fuel ih =>
      rw [seek] at h
      split at h
      · cases h
      · rename_i opcode hopcode
        split at h
        · rename_i listed stop hdecode
          obtain rfl := Option.some.inj (Prod.mk.inj h).1
          exact ⟨stop, (lists_of_decodeAt hopcode hdecode).2⟩
        · exact ih h

theorem exists_lists_of_mem_collect {fuel : Nat} {scan : Scan}
    (h : i ∈ (d.collect fuel scan).1) : ∃ stop, d.Lists i stop := by
  induction fuel generalizing scan with
  | zero => cases h
  | succ fuel ih =>
      rcases hnext : d.next scan with ⟨found, after⟩
      rw [collect, hnext] at h
      cases found with
      | none => cases h
      | some first =>
          rcases List.mem_cons.mp h with rfl | hrest
          · rw [next] at hnext
            split at hnext
            · cases hnext
            · exact exists_lists_of_seek hnext
          · exact ih hrest

/-- With or without a limit, whatever is in a disassembly is listed at its address. -/
theorem exists_lists_of_mem_disassemble (h : i ∈ d.disassemble.instructions) :
    ∃ stop, d.Lists i stop :=
  have hcollect : i ∈ (d.collect (d.program.size + 1) {}).1 := h
  exists_lists_of_mem_collect hcollect

/-! ### Limits -/

/-- A limit does not change what a scan comes to next. -/
theorem seek_withLimit (d : Disassembler) (limit : Option Nat) (fuel : Nat) (scan : Scan) :
    ({ d with limit } : Disassembler).seek fuel scan = d.seek fuel scan := by
  induction fuel generalizing scan with
  | zero => rfl
  | succ fuel ih => simp only [seek, decodeAt, ih]

theorem emitted_of_seek {fuel : Nat} {scan next : Scan}
    (h : d.seek fuel scan = (some i, next)) : next.emitted = scan.emitted + 1 := by
  induction fuel generalizing scan with
  | zero => cases h
  | succ fuel ih =>
      rw [seek] at h
      split at h
      · cases h
      · split at h
        · obtain ⟨-, rfl⟩ := Prod.mk.inj h
          rfl
        · have hemitted := ih h
          exact hemitted

/-- A scan with a limit lists the first instructions of the scan without one. Induction on the
fuel. -/
theorem collect_withLimit (hlimit : d.limit = none) (k fuel : Nat) (scan : Scan) :
    (({ d with limit := some k } : Disassembler).collect fuel scan).1 =
      (d.collect fuel scan).1.take (k - scan.emitted) := by
  induction fuel generalizing scan with
  | zero => simp [collect]
  | succ fuel ih =>
      rcases Nat.lt_or_ge scan.emitted k with hk | hk
      · have hnext : ({ d with limit := some k } : Disassembler).next scan = d.next scan := by
          rw [next_eq_seek hlimit, next, seek_withLimit]
          simp [Nat.not_le_of_lt hk]
        simp only [collect, hnext]
        cases hfound : d.next scan with
        | mk found next =>
            cases found with
            | none => simp
            | some i =>
                rw [next_eq_seek hlimit] at hfound
                have hemitted := emitted_of_seek hfound
                have htake : k - scan.emitted = (k - next.emitted) + 1 := by omega
                simp only [ih, htake, List.take_succ_cons]
      · have hnext : ({ d with limit := some k } : Disassembler).next scan = (none, scan) := by
          simp [next, hk]
        simp only [collect, hnext, Nat.sub_eq_zero_of_le hk, List.take_zero]

/-! ### Disassemblies -/

/-- **The disassembly tiles the program.** A scan without a limit ends, having listed what it
comes to next time after time. The addresses ascend, and each instruction shows what the slots
behind its opcode spell, complete or up to the operand that cannot be decoded, where the scan
goes on. Every slot is owned by one instruction or lies in a gap, and the gaps are the slots
that are counted as skipped, none of them an opcode. A limit keeps the first instructions. -/
theorem disassembly_tiles_program (hlimit : d.limit = none) :
    (∀ k, d.disassemble.instructions[k]? = (d.next (d.scanAfter k {})).1) ∧
    d.scanAfter (d.disassemble.instructions.length + 1) {} =
      ⟨d.program.size, d.disassemble.instructions.length, d.disassemble.skipped⟩ ∧
    d.disassemble.instructions.Pairwise (fun i j => i.address < j.address) ∧
    (∀ k i, d.disassemble.instructions[k]? = some i →
      d.Lists i (d.scanAfter (k + 1) {}).position ∧
      i.address < (d.scanAfter (k + 1) {}).position ∧
      (d.scanAfter (k + 1) {}).position ≤ d.program.size) ∧
    (∃ gaps : List Nat, gaps.length = d.disassemble.skipped ∧ gaps.Pairwise (· < ·) ∧
      (∀ x ∈ gaps, ∃ raw, d.program[x]? = some raw ∧ d.opcodes.get? raw = none) ∧
      ∀ x < d.program.size, (x ∈ gaps ∧ ∀ k, ¬d.Owns {} k x) ∨
        (x ∉ gaps ∧ ∃! k, d.Owns {} k x)) ∧
    ∀ k, ({ d with limit := some k } : Disassembler).disassemble.instructions =
      d.disassemble.instructions.take k := by
  have hstart : ({} : Scan).position ≤ d.program.size := Nat.zero_le _
  obtain ⟨gaps, hscans⟩ := collect_scans hlimit hstart (Nat.lt_succ_self d.program.size)
  have hlast := hscans.last_eq
  have hskipped : d.disassemble.skipped = gaps.length := by
    simp only [disassemble, hlast, Nat.zero_add]
  refine ⟨hscans.getElem?_eq hlimit, ?_, hscans.pairwise_address, fun k i hi => ?_,
    ⟨gaps, hskipped.symm, hscans.pairwise_gaps, fun x hx => (hscans.gap_bounds hx).2,
      fun x hx => hscans.tiles hlimit (Nat.zero_le _) hx⟩, fun k => ?_⟩
  · rw [hskipped]
    simp only [disassemble, hscans.scanAfter_eq]
    rw [hlast]
    simp
  · have hlists := hscans.lists hi
    exact ⟨hlists, hlists.bounds⟩
  · simpa [disassemble] using collect_withLimit hlimit k (d.program.size + 1) {}

/-- An opcode between two slots of data, and an opcode whose second operand is cut off. -/
def additionsInData : Disassembler where
  program := #[99, 7, 3, 5, 0, 7, 9, 46, 1]
  opcodes := ⟨[(7, { name := "ADD", operation := "+", operands := .binary, writes := true })]⟩
  decoder := {}

theorem disassembly_tiles_program_additionsInData :
    additionsInData.limit = none ∧
    additionsInData.disassemble.instructions.map (·.address) = [1, 5] ∧
    additionsInData.disassemble.instructions.map (·.operands) =
      [[.constant (.smallInt 1), .constant (.smallInt 2), .destination 0],
        [.constant (.smallInt 4), .raw 46]] ∧
    additionsInData.disassemble.skipped = 3 ∧
    (additionsInData.scanAfter 2 {}).position = 7 ∧ additionsInData.scanAfter 3 {} = ⟨9, 2, 3⟩ ∧
    ∃! k, additionsInData.Owns {} k 6 := by
  obtain ⟨-, hlast, -, -, ⟨gaps, -, -, -, htiles⟩, -⟩ :=
    disassembly_tiles_program (d := additionsInData) rfl
  have hsecond : additionsInData.Owns {} 1 6 := ⟨_, rfl, by decide, by decide⟩
  refine ⟨rfl, by decide, by decide, by decide, by decide, hlast, ?_⟩
  rcases htiles 6 (by decide) with ⟨-, hnone⟩ | ⟨-, hunique⟩
  · exact absurd hsecond (hnone 1)
  · exact hunique

end Disassembler

end TaggedBytecode
