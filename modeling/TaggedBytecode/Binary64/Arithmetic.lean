import TaggedBytecode.Binary64.Basic

/-!
# Arithmetic on Binary64 Words

Every operation is the **exact** one on rationals, followed by one **rounding** to the
nearest word with ties to the even significand. Rounding is the only place where precision
is lost: `Binary64.roundRatio` takes any non-negative rational, as a numerator and a
denominator counted in units of `2 ^ (-1074)`.

## Main definitions

* `roundHalfEven` — the nearest natural number to a quotient.
* `Binary64.roundRatio` — the nearest word to a rational.
* `Binary64.add`, `sub`, `mul`, `div`, `rem` — the five operations; `rem` has the sign of the
  dividend and is always exact.
* `Binary64.ofInt` — the nearest word to an integer.
-/

namespace TaggedBytecode

/-- The natural number nearest to `num / den`; a tie goes to the even neighbour. -/
def roundHalfEven (num den : Nat) : Nat :=
  let quotient := num / den
  let twice := 2 * (num % den)
  if twice < den then quotient
  else if den < twice then quotient + 1
  else quotient + quotient % 2

namespace Binary64

/-- The word nearest to `num / den` units. A word with `k` binary digits more than its
significand can hold is rounded at the `k`-th of them; its magnitude is then `k` binades
above the rounded significand, also when rounding carries into the next binade. -/
def roundRatio (negative : Bool) (num den : Nat) : Binary64 :=
  let whole := num / den
  let k := if whole = 0 then 0 else Nat.log2 whole - 52
  let magnitude := k * binade + roundHalfEven num (den * Nat.pow 2 k)
  ofMagnitude negative (min magnitude infiniteMagnitude)

/-- The word nearest to a whole number of units. -/
def ofSignedUnits (negativeZero : Bool) (n : Int) : Binary64 :=
  if n = 0 then zero negativeZero else roundRatio (decide (n < 0)) n.natAbs 1

/-- The word nearest to an integer. -/
def ofInt (n : Int) : Binary64 :=
  roundRatio (decide (n < 0)) (n.natAbs * unitsPerOne) 1

/-- The word nearest to a natural number. -/
def ofNat (n : Nat) : Binary64 := ofInt n

/-- The same word with the opposite sign. -/
def neg (x : Binary64) : Binary64 :=
  ofMagnitude (!x.negative) x.magnitude

/-- Addition. An exact zero is negative only if both operands are. -/
def add (x y : Binary64) : Binary64 :=
  if x.isNaN || y.isNaN then nan
  else if x.isInfinite then
    if y.isInfinite && x.negative != y.negative then nan else x
  else if y.isInfinite then y
  else ofSignedUnits (x.negative && y.negative) (x.signedUnits + y.signedUnits)

def sub (x y : Binary64) : Binary64 :=
  if y.isNaN then nan else add x y.neg

/-- Multiplication. Zero times infinity is NaN. -/
def mul (x y : Binary64) : Binary64 :=
  let sign := x.negative != y.negative
  if x.isNaN || y.isNaN then nan
  else if x.isInfinite || y.isInfinite then
    if x.magnitude == 0 || y.magnitude == 0 then nan else infinity sign
  else roundRatio sign (x.units * y.units) unitsPerOne

/-- Division. A non-zero number over zero is infinite, and zero over zero is NaN. -/
def div (x y : Binary64) : Binary64 :=
  let sign := x.negative != y.negative
  if x.isNaN || y.isNaN then nan
  else if x.isInfinite then
    if y.isInfinite then nan else infinity sign
  else if y.isInfinite then zero sign
  else if y.magnitude == 0 then
    if x.magnitude == 0 then nan else infinity sign
  else roundRatio sign (x.units * unitsPerOne) y.units

/-- The remainder of truncated division; it has the sign of the dividend. -/
def rem (x y : Binary64) : Binary64 :=
  if x.isNaN || y.isNaN || x.isInfinite || y.magnitude == 0 then nan
  else if y.isInfinite then x
  else roundRatio x.negative (x.units % y.units) 1

end Binary64

end TaggedBytecode
