/-!
# Integer Numerals

An **integer numeral** is an optional sign and some decimal digits, and it stands for a 64-bit
integer. Digits are read from the left, so the first thing that goes wrong is the one that is
reported.

## Main definitions

* `IntegerError` — what is wrong with a numeral.
* `Text.int64?` — reads a numeral; `Text.nat64?` — reads one without a minus sign.
* `Text.natIn?` — the value of digits in another base.
-/

namespace TaggedBytecode

/-- Why a text is not an integer numeral. -/
inductive IntegerError where
  | empty
  | invalidDigit
  | tooLarge
  | tooSmall
  deriving DecidableEq, Repr

namespace IntegerError

def message : IntegerError → String
  | empty => "cannot parse integer from empty string"
  | invalidDigit => "invalid digit found in string"
  | tooLarge => "number too large to fit in target type"
  | tooSmall => "number too small to fit in target type"

end IntegerError

namespace Text

/-- Continues a numeral whose digits so far have the value `n`; no prefix may exceed `limit`. -/
def readDigits (limit : Nat) (overflow : IntegerError) :
    Nat → List Char → Except IntegerError Nat
  | n, [] => .ok n
  | n, c :: rest =>
    if c.isDigit then
      let next := 10 * n + (c.toNat - '0'.toNat)
      if limit < next then .error overflow else readDigits limit overflow next rest
    else .error .invalidDigit

/-- Reads a 64-bit integer. -/
def int64? (cs : List Char) : Except IntegerError Int :=
  match cs with
  | [] => .error .empty
  | ['+'] | ['-'] => .error .invalidDigit
  | '-' :: rest => (readDigits 0x8000000000000000 .tooSmall 0 rest).map fun n => -(n : Int)
  | '+' :: rest => (readDigits 0x7fffffffffffffff .tooLarge 0 rest).map Int.ofNat
  | rest => (readDigits 0x7fffffffffffffff .tooLarge 0 rest).map Int.ofNat

/-- Reads a natural number of 64 bits. -/
def nat64? (cs : List Char) : Except IntegerError Nat :=
  let digits :=
    match cs with
    | '+' :: rest => rest
    | _ => cs
  match cs, digits with
  | [], _ => .error .empty
  | _, [] => .error .invalidDigit
  | _, _ => readDigits 0xffffffffffffffff .tooLarge 0 digits

/-- The value of a digit in a base up to sixteen. -/
def digitValue? (base : Nat) (c : Char) : Option Nat :=
  let value :=
    if c.isDigit then c.toNat - '0'.toNat
    else if 'a' ≤ c ∧ c ≤ 'f' then c.toNat - 'a'.toNat + 10
    else if 'A' ≤ c ∧ c ≤ 'F' then c.toNat - 'A'.toNat + 10
    else 16
  if value < base then some value else none

/-- The value of at least one digit in a base up to sixteen. -/
def natIn? (base : Nat) (cs : List Char) : Option Nat :=
  if cs.isEmpty then none
  else cs.foldlM (fun n c => (digitValue? base c).map (base * n + ·)) 0

end Text

end TaggedBytecode
