/-!
# Character Modes

A **character transform** maps a slot of an inline string to the UTF-16 unit it stands for. The
**character modes** are the transforms that come with the library.

## Main definitions

* `CharTransform` — a map from slots to units.
* `CharMode.codeUnit` — the unit of a slot under a mode.
-/

namespace TaggedBytecode

/-- How slots of inline strings stand for UTF-16 units. -/
structure CharTransform where
  codeUnit : Int32 → UInt16
  deriving Inhabited

/-- The transforms with a name. -/
inductive CharMode where
  /-- The slot holds the unit. -/
  | identity
  /-- The low six bits of the slot are multiplied by 41 modulo 64. -/
  | maskMultiply
  deriving DecidableEq, Inhabited, Repr

namespace CharMode

/-- The unit of a slot: its low sixteen bits, after the mode's scrambling is undone. -/
def codeUnit : CharMode → Int32 → UInt16
  | identity, raw => raw.toUInt32.toUInt16
  | maskMultiply, raw => ((raw &&& ~~~63) ||| (raw * 41 &&& 63)).toUInt32.toUInt16

/-- The transform of a mode. -/
@[coe] def transform (mode : CharMode) : CharTransform := ⟨mode.codeUnit⟩

instance : Coe CharMode CharTransform := ⟨transform⟩

/-- The name of a mode in documents and options. -/
def name : CharMode → String
  | identity => "identity"
  | maskMultiply => "mask-multiply"

/-- The mode of a name. -/
def ofName? : String → Option CharMode
  | "identity" => some identity
  | "mask-multiply" => some maskMultiply
  | _ => none

end CharMode

end TaggedBytecode
