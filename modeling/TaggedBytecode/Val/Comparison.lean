import TaggedBytecode.Val.Number

/-!
# Comparison of Values

**Strict equality** holds between values of one type: numbers are compared as numbers,
containers by identity. **Loose equality** first brings both sides to numbers, unless both are
strings or one is a container, and takes the two absent values as equal. The **order** compares
two integers exactly, two strings by code point, and anything else as numbers.

## Main definitions

* `Val.strictEq`, `Val.looseEq` — the two equalities.
* `Val.lessThan` — the order.
-/

namespace TaggedBytecode.Val

/-- Equality without coercion. -/
def strictEq : Val → Val → Bool
  | int a, int b => a == b
  | undefined, undefined | null, null => true
  | bool a, bool b => a == b
  | str a, str b => a == b
  | list i _, list j _ => i == j
  | map i _, map j _ => i == j
  | a, b => a.isNumber && b.isNumber && a.toNumber.equals b.toNumber

/-- Equality with coercion. -/
def looseEq (a b : Val) : Bool :=
  if a.isNullish || b.isNullish then a.isNullish && b.isNullish
  else
    match a, b with
    | str s, str t => s == t
    | a, b =>
      if a.isContainer || b.isContainer then strictEq a b
      else a.toNumber.equals b.toNumber

/-- The order of values. -/
def lessThan : Val → Val → Bool
  | int a, int b => decide (a < b)
  | str s, str t => decide (s < t)
  | a, b => a.toNumber.lessThan b.toNumber

def greaterThan (a b : Val) : Bool := lessThan b a

end TaggedBytecode.Val
