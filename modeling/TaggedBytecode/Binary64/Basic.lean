/-!
# Binary64 Words

A **binary64 word** is the 64-bit interchange form of a floating-point number, kept as its
bits so that every NaN payload survives a copy. This module reads the fields of a word and
gives its classes and its order.

The exact value of a finite word is a whole multiple of the least positive number,
`2 ^ (-1074)`. `Binary64.units` is that multiple, so exact arithmetic on finite words is
arithmetic on natural numbers.

## Main definitions

* `Binary64.units` — the magnitude of a finite word, counted in units of `2 ^ (-1074)`.
* `Binary64.key` — a signed index that orders words as the numbers they stand for; both
  zeros have the index `0`.
* `Binary64.equals`, `Binary64.lessThan` — numeric comparison, false on every NaN.
-/

namespace TaggedBytecode

/-- A 64-bit floating-point word. -/
structure Binary64 where
  /-- The word: one sign bit, eleven exponent bits, fifty-two fraction bits. -/
  bits : UInt64
  deriving DecidableEq, Inhabited, Repr

namespace Binary64

/-- Number of units of `2 ^ (-1074)` in one. -/
def unitsPerOne : Nat := Nat.pow 2 1074

/-- The value of the sign bit, `2 ^ 63`. -/
def signBit : Nat := 0x8000000000000000

/-- The number of words from a power of two to the next, `2 ^ 52`. -/
def binade : Nat := 0x10000000000000

/-- Whether the sign bit is set. -/
def negative (x : Binary64) : Bool :=
  decide (signBit ≤ x.bits.toNat)

/-- The word without its sign bit. Magnitudes are ordered as the absolute values are. -/
def magnitude (x : Binary64) : Nat :=
  x.bits.toNat % signBit

/-- The magnitude of the infinities. Larger magnitudes are NaNs. -/
def infiniteMagnitude : Nat := 2047 * binade

/-- The word of a sign and a magnitude below `2 ^ 63`. -/
def ofMagnitude (negative : Bool) (magnitude : Nat) : Binary64 :=
  ⟨UInt64.ofNat (if negative then signBit + magnitude else magnitude)⟩

/-- The canonical quiet NaN. -/
def nan : Binary64 := ⟨0x7ff8000000000000⟩

/-- Zero, positive or negative. -/
def zero (negative : Bool) : Binary64 := ofMagnitude negative 0

/-- An infinity. -/
def infinity (negative : Bool) : Binary64 := ofMagnitude negative infiniteMagnitude

def isNaN (x : Binary64) : Bool :=
  decide (infiniteMagnitude < x.magnitude)

def isInfinite (x : Binary64) : Bool :=
  decide (x.magnitude = infiniteMagnitude)

def isFinite (x : Binary64) : Bool :=
  decide (x.magnitude < infiniteMagnitude)

/-- The biased exponent. -/
def exponentField (x : Binary64) : Nat :=
  x.magnitude / binade

/-- The fraction bits. -/
def fractionField (x : Binary64) : Nat :=
  x.magnitude % binade

/-- Distance, in units, from a finite magnitude to the next one above. -/
def spacing (x : Binary64) : Nat :=
  Nat.pow 2 (x.exponentField - 1)

/-- The magnitude of a finite word in units of `2 ^ (-1074)`: the fraction itself below the
normal range, and the fraction with its leading one, scaled by the spacing, within it. -/
def units (x : Binary64) : Nat :=
  if x.exponentField = 0 then x.fractionField
  else (binade + x.fractionField) * x.spacing

/-- The signed count of units of a finite word. -/
def signedUnits (x : Binary64) : Int :=
  if x.negative then -(x.units : Int) else x.units

/-- A signed index in numeric order. -/
def key (x : Binary64) : Int :=
  if x.negative then -(x.magnitude : Int) else x.magnitude

/-- Numeric equality: the zeros are equal, and a NaN equals nothing. -/
def equals (x y : Binary64) : Bool :=
  !x.isNaN && !y.isNaN && x.key == y.key

/-- Numeric order: nothing is below or above a NaN. -/
def lessThan (x y : Binary64) : Bool :=
  !x.isNaN && !y.isNaN && decide (x.key < y.key)

/-- The whole part of a finite word, dropping the fraction toward zero. -/
def truncate (x : Binary64) : Int :=
  let whole : Int := (x.units / unitsPerOne : Nat)
  if x.negative then -whole else whole

/-- Whether a word is finite and stands for a whole number. -/
def isIntegral (x : Binary64) : Bool :=
  x.isFinite && x.units % unitsPerOne == 0

end Binary64

end TaggedBytecode
