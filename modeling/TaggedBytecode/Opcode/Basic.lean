import TaggedBytecode.Collection.Assoc

/-!
# Opcode Metadata

The **metadata** of an opcode says what it is called and how its operands are laid out: some
constants, then a destination slot if it writes one. An **opcode map** assigns metadata to
opcode numbers.

## Main definitions

* `OperandClass`, `OperandClass.operandCount` — the layouts.
* `OpcodeMeta` — the metadata of one opcode.
* `OpcodeMap` — metadata by opcode number.
-/

namespace TaggedBytecode

/-- The layout of an opcode's operands. -/
inductive OperandClass where
  | nullary
  | unary
  | binary
  /-- Object, key and value. -/
  | ternary
  /-- A callee and some arguments. -/
  | call (args : Nat)
  /-- A target address. -/
  | jump
  /-- A condition and a target address. -/
  | branch
  deriving DecidableEq, Inhabited, Repr

namespace OperandClass

/-- The number of constants before the destination slot. -/
def operandCount : OperandClass → Nat
  | nullary => 0
  | unary | jump => 1
  | binary | branch => 2
  | ternary => 3
  | call args => 1 + args

/-- The name of a layout without its argument count. -/
def kind : OperandClass → String
  | nullary => "nullary"
  | unary => "unary"
  | binary => "binary"
  | ternary => "ternary"
  | call _ => "call"
  | jump => "jump"
  | branch => "branch"

/-- The name of a layout. -/
def name : OperandClass → String
  | call args => "call/" ++ toString args
  | other => other.kind

end OperandClass

/-- What is known of an opcode. -/
structure OpcodeMeta where
  name : String
  /-- How listings show the operation. -/
  operation : String := ""
  description : String := ""
  operands : OperandClass := .nullary
  /-- Whether a destination slot follows the operands. -/
  writes : Bool := false
  deriving DecidableEq, Inhabited, Repr

/-- Metadata by opcode number, in ascending order. -/
structure OpcodeMap where
  entries : List (Nat × OpcodeMeta) := []
  deriving DecidableEq, Inhabited, Repr

namespace OpcodeMap

/-- Adds or replaces an opcode. -/
def insert (map : OpcodeMap) (id : Nat) (info : OpcodeMeta) : OpcodeMap :=
  ⟨Assoc.insert id info map.entries⟩

/-- The metadata of an opcode number. -/
def find? (map : OpcodeMap) (id : Nat) : Option OpcodeMeta :=
  Assoc.get? id map.entries

/-- The metadata for a raw slot value; negative values are no opcodes. -/
def get? (map : OpcodeMap) (raw : Int32) : Option OpcodeMeta :=
  if raw < 0 then none else map.find? raw.toNatClampNeg

def length (map : OpcodeMap) : Nat := map.entries.length

/-- The length of a table that has a place for every opcode of the map. -/
def tableSize (map : OpcodeMap) : Nat :=
  match map.entries.getLast? with
  | some (id, _) => id + 1
  | none => 0

/-- The least opcode with a name. -/
def idOf (map : OpcodeMap) (name : String) : Option Nat :=
  (map.entries.find? fun e => e.2.name == name).map (·.1)

end OpcodeMap

end TaggedBytecode
