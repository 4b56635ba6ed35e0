import TaggedBytecode.Binary64.Arithmetic
import TaggedBytecode.Val.Number
import TaggedBytecode.Val.Text

/-!
# Operators

The arithmetic **operators** keep integers as long as the exact result fits 64 bits, and
otherwise compute in binary64. Addition concatenates as soon as one side is a string and
neither is a container; containers take part in no arithmetic. The **bitwise operators** work
on 32-bit integers and apply to every value.

The remainder test of integer division overflows for the least integer over minus one. That is
not an error a program can catch: it is an arithmetic **overflow** that ends the run.

## Main definitions

* `OperatorError` — why an operator has no result.
* `Val.add`, `Val.sub`, `Val.mul`, `Val.div`, `Val.rem` — arithmetic.
* `Val.bitAnd`, `Val.bitOr`, `Val.bitXor`, `Val.shiftLeft`, `Val.shiftRight` — bits.
-/

namespace TaggedBytecode

/-- Why an operator has no result. -/
inductive OperatorError where
  /-- An operand of a type that takes no part in arithmetic. -/
  | invalid (left : String) (symbol : String) (right : String)
  /-- The machine integers cannot hold an intermediate result. -/
  | overflow
  deriving DecidableEq, Repr

namespace OperatorError

def message : OperatorError → String
  | invalid left symbol right => "Invalid op: " ++ left ++ " " ++ symbol ++ " " ++ right
  | overflow => "attempt to calculate the remainder with overflow"

end OperatorError

namespace Val

/-- The result of an operator. -/
abbrev Result := Except OperatorError Val

/-- An exact integer result, or the float result where 64 bits do not hold it. -/
def intOrFloat (exact : Int) (rounded : Binary64) : Val :=
  if -0x8000000000000000 ≤ exact ∧ exact < 0x8000000000000000 then int (Int64.ofInt exact)
  else float rounded

/-- A binary64 operation on any operands but containers. -/
def onNumbers (symbol : String) (op : Binary64 → Binary64 → Binary64) (a b : Val) : Result :=
  if a.isContainer || b.isContainer then .error (.invalid a.typeName symbol b.typeName)
  else .ok (float (op a.toNumber b.toNumber))

/-- Addition of numbers, concatenation with a string. -/
def add (a b : Val) : Result :=
  match a, b with
  | int m, int n =>
    .ok (intOrFloat (m.toInt + n.toInt) (a.toNumber.add b.toNumber))
  | str s, str t => .ok (str (s ++ t))
  | str s, b => if b.isContainer then onNumbers "+" .add a b else .ok (str (s ++ b.text))
  | a, str t => if a.isContainer then onNumbers "+" .add a b else .ok (str (a.text ++ t))
  | a, b => onNumbers "+" .add a b

def sub (a b : Val) : Result :=
  match a, b with
  | int m, int n =>
    .ok (intOrFloat (m.toInt - n.toInt) (a.toNumber.sub b.toNumber))
  | a, b => onNumbers "-" .sub a b

def mul (a b : Val) : Result :=
  match a, b with
  | int m, int n =>
    .ok (intOrFloat (m.toInt * n.toInt) (a.toNumber.mul b.toNumber))
  | a, b => onNumbers "*" .mul a b

/-- Division. The quotient of two integers is an integer only when it is exact. -/
def div (a b : Val) : Result :=
  match a, b with
  | int m, int n =>
    if n = 0 then onNumbers "/" .div a b
    else if m = Int64.minValue ∧ n = -1 then .error .overflow
    else if m % n = 0 then .ok (int (m / n))
    else onNumbers "/" .div a b
  | a, b => onNumbers "/" .div a b

/-- The remainder of truncated division. -/
def rem (a b : Val) : Result :=
  match a, b with
  | int m, int n => if n = 0 then onNumbers "%" .rem a b else .ok (int (m % n))
  | a, b => onNumbers "%" .rem a b

/-! ### Bits -/

/-- A 32-bit integer as a value. -/
def ofInt32 (n : Int32) : Val := int n.toInt64

def bitAnd (a b : Val) : Val := ofInt32 (a.toInt32 &&& b.toInt32)

def bitOr (a b : Val) : Val := ofInt32 (a.toInt32 ||| b.toInt32)

def bitXor (a b : Val) : Val := ofInt32 (a.toInt32 ^^^ b.toInt32)

def bitNot (a : Val) : Val := ofInt32 (~~~a.toInt32)

/-- Shift to the left by the low five bits of the right operand. -/
def shiftLeft (a b : Val) : Val := ofInt32 (a.toInt32 <<< (b.toInt32 &&& 31))

/-- Arithmetic shift to the right by the low five bits of the right operand. -/
def shiftRight (a b : Val) : Val := ofInt32 (a.toInt32 >>> (b.toInt32 &&& 31))

end Val

end TaggedBytecode
