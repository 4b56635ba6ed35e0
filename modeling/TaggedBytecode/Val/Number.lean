import TaggedBytecode.Binary64.Numeral
import TaggedBytecode.Text.Blank
import TaggedBytecode.Val.Basic

/-!
# Numeric Coercion

Every value has a **number**: absence of a value is NaN or zero, truth values are one and
zero, a string is read as a numeral without the blanks around it, and a container is NaN. The
**32-bit integer** of a value wraps its number around modulo `2 ^ 32`.

## Main definitions

* `Val.toNumber` — the number of a value.
* `Val.ofNumber` — a number as a value, an integer where it is a safe one.
* `Val.toInt32` — the 32-bit integer of a value.
-/

namespace TaggedBytecode

/-- The number a string spells; a blank string is zero, and one that is no numeral is NaN. -/
def stringNumber (s : String) : Binary64 :=
  match Text.trimChars s.toList with
  | [] => Binary64.zero false
  | cs => (Binary64.ofNumeral? cs).getD Binary64.nan

/-- The bounds of the 128-bit integers, at which a truncated float is held before it wraps. -/
def clampInt128 (n : Int) : Int :=
  max (-0x80000000000000000000000000000000) (min n 0x7fffffffffffffffffffffffffffffff)

namespace Val

/-- The number of a value. -/
def toNumber : Val → Binary64
  | undefined => Binary64.nan
  | null => Binary64.zero false
  | bool b => if b then Binary64.ofNat 1 else Binary64.zero false
  | int n => Binary64.ofInt n.toInt
  | float x => x
  | str s => stringNumber s
  | list .. | map .. => Binary64.nan

/-- The value of a number: an integer if it is whole and below `2 ^ 53` in magnitude. -/
def ofNumber (x : Binary64) : Val :=
  if x.isIntegral && x.truncate.natAbs < 0x20000000000000 then int (Int64.ofInt x.truncate)
  else float x

/-- The 32-bit integer of a value; a number that is not finite is zero. -/
def toInt32 : Val → Int32
  | int n => n.toInt32
  | v =>
    let x := v.toNumber
    if x.isFinite then Int32.ofInt (clampInt128 x.truncate) else 0

end Val

end TaggedBytecode
