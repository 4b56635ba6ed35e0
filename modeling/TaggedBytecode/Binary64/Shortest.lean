import TaggedBytecode.Binary64.Arithmetic

/-!
# Shortest Decimal Digits

The **shortest digits** of a positive finite word are the fewest decimal digits that read
back as that word; of several such decimals the one nearest to the exact value is taken, and
an exact tie goes to the even digit.

A decimal reads back as the word if it lies in the word's rounding interval, which reaches
half way to either neighbour and includes its ends when the significand is even. For each
number of digits only the two decimals around the exact value have to be tried: if any
decimal with that many digits lies in the interval, one of these two does.

## Main definitions

* `Decimal` — a natural number scaled by a power of ten.
* `Binary64.shortest` — the shortest digits of a word.
-/

namespace TaggedBytecode

/-- The number `digits · 10 ^ exponent`. -/
structure Decimal where
  digits : Nat
  exponent : Int
  deriving DecidableEq, Inhabited, Repr

namespace Decimal

/-- Moves the trailing zeros of the digits into the exponent, at most `fuel` of them. -/
def trimZeros : Nat → Decimal → Decimal
  | 0, d => d
  | fuel + 1, d =>
    if d.digits ≠ 0 ∧ d.digits % 10 = 0 then
      trimZeros fuel ⟨d.digits / 10, d.exponent + 1⟩
    else d

end Decimal

/-- Number of decimal digits of a natural number; zero has one. -/
def decimalLength (n : Nat) : Nat :=
  (Nat.toDigits 10 n).length

namespace Binary64

/-- A positive rational as a numerator over a denominator. -/
structure Quotient where
  num : Nat
  den : Nat

/-- Divides by a power of ten. -/
def Quotient.scaleDown (q : Quotient) (exponent : Int) : Quotient :=
  ⟨q.num * Nat.pow 10 (-exponent).toNat, q.den * Nat.pow 10 exponent.toNat⟩

/-- The least count of leading zeros, from `count` on, after which the first digit of a
fraction below one appears. -/
def leadingZeros (q : Quotient) : (fuel count : Nat) → Nat
  | 0, count => count
  | fuel + 1, count =>
    if q.den ≤ q.num * Nat.pow 10 (count + 1) then count else leadingZeros q fuel (count + 1)

/-- The place of the decimal point: the `point` with `10 ^ (point - 1) ≤ q < 10 ^ point`. -/
def decimalPoint (q : Quotient) : Int :=
  if q.den ≤ q.num then decimalLength (q.num / q.den)
  else -(leadingZeros q 400 0 : Nat)

/-- The **rounding interval** of a finite word other than zero, in quarter units around its
value. The interval below a power of two is half as wide. -/
structure Interval where
  low : Nat
  value : Nat
  high : Nat
  closed : Bool

def interval (x : Binary64) : Interval where
  low :=
    if x.fractionField = 0 ∧ 1 < x.exponentField then 4 * x.units - x.spacing
    else 4 * x.units - 2 * x.spacing
  value := 4 * x.units
  high := 4 * x.units + 2 * x.spacing
  closed := x.magnitude % 2 == 0

/-- Quarter units in one. -/
def quartersPerOne : Nat := 4 * unitsPerOne

/-- Whether `digits · 10 ^ exponent` lies in the interval. -/
def Interval.contains (i : Interval) (d : Decimal) : Bool :=
  let quarters := d.digits * Nat.pow 10 d.exponent.toNat * quartersPerOne
  let scale := Nat.pow 10 (-d.exponent).toNat
  if i.closed then decide (i.low * scale ≤ quarters) && decide (quarters ≤ i.high * scale)
  else decide (i.low * scale < quarters) && decide (quarters < i.high * scale)

/-- The decimal with its last digit at `10 ^ exponent` that reads back as the word, if there
is one: of the two around the value, the nearer that lies in the interval. -/
def Interval.atExponent? (i : Interval) (exponent : Int) : Option Decimal :=
  let q := Quotient.scaleDown ⟨i.value, quartersPerOne⟩ exponent
  let below : Decimal := ⟨q.num / q.den, exponent⟩
  let above : Decimal := ⟨q.num / q.den + 1, exponent⟩
  let near := if roundHalfEven q.num q.den = below.digits then below else above
  let far := if roundHalfEven q.num q.den = below.digits then above else below
  if i.contains near then some near
  else if i.contains far then some far
  else none

/-- The shortest digits of a finite word other than zero, sign aside. Seventeen digits always
suffice. -/
def shortest (x : Binary64) : Decimal :=
  let i := x.interval
  let point := decimalPoint ⟨i.value, quartersPerOne⟩
  let candidates := (List.range 17).findSome? fun n => i.atExponent? (point - (n + 1 : Nat))
  (candidates.getD ⟨0, 0⟩).trimZeros 20

end Binary64

end TaggedBytecode
