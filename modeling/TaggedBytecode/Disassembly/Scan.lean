import TaggedBytecode.Constant.Decoder
import TaggedBytecode.Opcode.Basic

/-!
# Disassembly

A **scan** walks over a program without running it. At a slot that is an opcode it lists an
instruction and goes on behind its operands; any other slot is skipped as data. An operand
that cannot be decoded ends its instruction: the instruction is marked as failed, shows the raw
slot, and the scan goes on at that slot.

## Main definitions

* `ListedInstruction` — an instruction as a listing shows it.
* `Disassembler` — a program with what is needed to scan it.
* `Disassembler.next` — goes on to the next instruction.
* `Disassembler.disassemble` — the whole scan.
-/

namespace TaggedBytecode

/-- An operand as a listing shows it. -/
inductive ListedOperand where
  | constant (c : Constant)
  /-- The slot that the instruction writes. -/
  | destination (slot : Nat)
  /-- A slot that could not be decoded. -/
  | raw (value : Int32)
  deriving DecidableEq, Repr

/-- An instruction as a listing shows it. -/
structure ListedInstruction where
  address : Nat
  opcode : Int32
  name : String
  operation : String
  operands : List ListedOperand
  /-- Whether an operand could not be decoded. -/
  failed : Bool
  deriving DecidableEq, Repr

/-- A program with what is needed to scan it. -/
structure Disassembler where
  program : Program
  opcodes : OpcodeMap
  decoder : Decoder
  /-- The number of instructions after which a scan stops. -/
  limit : Option Nat := none

/-- How far a scan has come. -/
structure Scan where
  position : Nat := 0
  /-- Number of instructions listed. -/
  emitted : Nat := 0
  /-- Number of slots skipped. -/
  skipped : Nat := 0
  deriving DecidableEq, Repr

/-- The operands read from a position on, the position after them, and whether all of them
could be decoded. -/
structure OperandRun where
  operands : List ListedOperand
  position : Nat
  complete : Bool

namespace OperandRun

/-- Puts an operand in front. -/
def cons (operand : ListedOperand) (run : OperandRun) : OperandRun :=
  { run with operands := operand :: run.operands }

end OperandRun

namespace Disassembler

/-- A run that stops at a slot that cannot be decoded, which it shows if there is one. -/
def failedRun (program : Program) (position : Nat) : OperandRun where
  operands := (program[position]?.map ListedOperand.raw).toList
  position := position
  complete := false

/-- Reads the destination slot, if the instruction has one. -/
def readDestination (program : Program) (writes : Bool) (position : Nat) : OperandRun :=
  if writes then
    match Decoder.slot program position with
    | .ok (slot, after) => ⟨[.destination slot], after, true⟩
    | .error _ => failedRun program position
  else ⟨[], position, true⟩

/-- Reads some constants and the destination slot. -/
def readOperands (program : Program) (decoder : Decoder) (writes : Bool) :
    (count position : Nat) → OperandRun
  | 0, position => readDestination program writes position
  | count + 1, position =>
    match decoder.constant program position with
    | .ok (c, after) => (readOperands program decoder writes count after).cons (.constant c)
    | .error _ => failedRun program position

/-- The instruction whose opcode is at `address`, and the position after it. -/
def decodeAt (d : Disassembler) (address : Nat) (opcode : Int32) :
    Option (ListedInstruction × Nat) :=
  (d.opcodes.get? opcode).map fun info =>
    let run :=
      readOperands d.program d.decoder info.writes info.operands.operandCount (address + 1)
    ({ address, opcode, name := info.name, operation := info.operation,
       operands := run.operands, failed := !run.complete },
      run.position)

/-- Skips to the next opcode. The fuel is the number of slots that are left. -/
def seek (d : Disassembler) : (fuel : Nat) → Scan → Option ListedInstruction × Scan
  | 0, scan => (none, scan)
  | fuel + 1, scan =>
    match d.program[scan.position]? with
    | none => (none, scan)
    | some opcode =>
      match d.decodeAt scan.position opcode with
      | some (instruction, after) =>
        (some instruction, { scan with position := after, emitted := scan.emitted + 1 })
      | none =>
        d.seek fuel { scan with position := scan.position + 1, skipped := scan.skipped + 1 }

/-- Goes on to the next instruction, unless the limit is reached. -/
def next (d : Disassembler) (scan : Scan) : Option ListedInstruction × Scan :=
  if d.limit.any (· ≤ scan.emitted) then (none, scan)
  else d.seek (d.program.size - scan.position) scan

/-- Lists instructions to the end of the scan, at most `fuel` of them. -/
def collect (d : Disassembler) : (fuel : Nat) → Scan → List ListedInstruction × Scan
  | 0, scan => ([], scan)
  | fuel + 1, scan =>
    match d.next scan with
    | (none, scan) => ([], scan)
    | (some instruction, scan) =>
      let (rest, scan) := d.collect fuel scan
      (instruction :: rest, scan)

end Disassembler

/-- The result of a scan. -/
structure Disassembly where
  /-- The length of the program. -/
  total : Nat
  instructions : List ListedInstruction
  /-- Number of slots skipped. -/
  skipped : Nat

namespace Disassembler

/-- Scans a program from its start. There are no more instructions than slots. -/
def disassemble (d : Disassembler) : Disassembly :=
  let (instructions, scan) := d.collect (d.program.size + 1) {}
  { total := d.program.size, instructions, skipped := scan.skipped }

end Disassembler

namespace Disassembly

/-- The number of instructions with an operand that could not be decoded. -/
def decodeErrors (d : Disassembly) : Nat :=
  d.instructions.countP (·.failed)

end Disassembly

end TaggedBytecode
