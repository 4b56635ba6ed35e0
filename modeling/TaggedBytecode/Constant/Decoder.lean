import TaggedBytecode.Constant.CharMode
import TaggedBytecode.Constant.Markers
import TaggedBytecode.Constant.Pool

/-!
# Decoding Constants

A program is a sequence of 32-bit **slots**. A constant starts at a slot: an odd slot is a
small integer, a slot that holds a marker announces the constant of that marker, and any other
slot is a reference to a variable. A read gives the constant and the position after it; a
failed read gives only its fault, so the reader stays where it was.

## Main definitions

* `Decoder` — the markers, the character transform and the string pool to decode with.
* `Decoder.constant` — reads a constant.
* `Decoder.slot` — reads a destination slot.
-/

namespace TaggedBytecode

/-- A program: a sequence of slots. -/
abbrev Program := Array Int32

/-- What is needed to decode constants. -/
structure Decoder where
  markers : Markers := {}
  chars : CharTransform := CharMode.maskMultiply
  /-- Where the strings are, when they are not inline. -/
  pool : Option StringPool := none
  deriving Inhabited

/-- Reads one slot. -/
def takeSlot (program : Program) (position : Nat) (awaited : Awaited) :
    Except Fault (Int32 × Nat) :=
  match program[position]? with
  | some raw => .ok (raw, position + 1)
  | none => .error (.constant position (.ended awaited))

/-- The variable that a slot refers to, given the position after the slot. -/
def slotReference (raw : Int32) (after : Nat) : Except Fault Nat :=
  if raw < 0 then .error (.constant after (.negativeReference raw))
  else .ok (raw >>> 5).toNatClampNeg

namespace Decoder

/-- Reads the two words of a float. -/
def floatPayload (program : Program) (position : Nat) : Except Fault (Binary64 × Nat) := do
  let (high, position) ← takeSlot program position .floatHigh
  let (low, position) ← takeSlot program position .floatLow
  return (⟨high.toUInt32.toUInt64 <<< 32 ||| low.toUInt32.toUInt64⟩, position)

/-- Reads `length` slots as the units of an inline string. -/
def inlineUnits (d : Decoder) (program : Program) (position length : Nat) :
    Except Fault (String × Nat) :=
  if program.size < position + length then
    .error (.constant program.size (.insideString length))
  else
    let units := (program.extract position (position + length)).toList.map d.chars.codeUnit
    .ok (Text.ofUtf16 units, position + length)

/-- Reads an offset and looks the string up in the pool. -/
def pooledString (pool : StringPool) (program : Program) (position : Nat) (length : Int32) :
    Except Fault (String × Nat) := do
  let (offset, after) ← takeSlot program position .poolOffset
  let found := if offset < 0 then none
    else pool.slice offset.toNatClampNeg length.toNatClampNeg
  match found with
  | some text => return (text, after)
  | none => throw (.constant position (.poolSlice offset length pool.length))

/-- Reads the length and the content of a string. -/
def stringPayload (d : Decoder) (program : Program) (position : Nat) :
    Except Fault (String × Nat) := do
  let (length, after) ← takeSlot program position .stringLength
  if length < 0 then throw (.constant position (.negativeLength length))
  match d.pool with
  | some pool => pooledString pool program after length
  | none => d.inlineUnits program after length.toNatClampNeg

/-- Reads a constant. -/
def constant (d : Decoder) (program : Program) (position : Nat) :
    Except Fault (Constant × Nat) := do
  let (raw, after) ← takeSlot program position .constant
  if isOdd raw then return (.smallInt (raw >>> 1), after)
  else if raw = d.markers.floatTag then
    let (x, after) ← floatPayload program after
    return (.float64 x, after)
  else if raw = d.markers.trueTag then return (.bool true, after)
  else if raw = d.markers.stringTag then
    let (s, after) ← d.stringPayload program after
    return (.str s, after)
  else if raw = d.markers.nullTag then return (.null, after)
  else if raw = d.markers.falseTag then return (.bool false, after)
  else if some raw = d.markers.undefinedTag then return (.undefined, after)
  else
    let slot ← slotReference raw after
    return (.varRef slot, after)

/-- Reads the number of a destination slot. -/
def slot (program : Program) (position : Nat) : Except Fault (Nat × Nat) := do
  let (raw, after) ← takeSlot program position .destination
  let slot ← slotReference raw after
  return (slot, after)

end Decoder

end TaggedBytecode
