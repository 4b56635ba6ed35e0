import TaggedBytecode.Machine.Execution
import TaggedBytecode.Val.Operator

/-!
# Arithmetic Instructions

The instructions that compute with numbers and strings. Each reads its operands, computes, and
writes the result. An operator that does not apply throws a type error that the program can
catch.

## Main definitions

* `Reference.computing2`, `Reference.computing1` — the shape of these instructions.
-/

namespace TaggedBytecode.Reference

/-- An instruction that computes a value from two operands and writes it. -/
def computing2 (f : Val → Val → HandlerM Val) : Handler := do
  let a ← HandlerM.operand
  let b ← HandlerM.operand
  HandlerM.write (← f a b)
  return .continue

/-- An instruction that computes a value from one operand and writes it. -/
def computing1 (f : Val → HandlerM Val) : Handler := do
  let a ← HandlerM.operand
  HandlerM.write (← f a)
  return .continue

/-- A type error that the program can catch. -/
def typeError {α : Type} (message : String) : HandlerM α :=
  HandlerM.throw (.error ("TypeError: " ++ message))

/-- The result of an operator. -/
def result : Val.Result → HandlerM Val
  | .ok value => return value
  | .error .overflow => HandlerM.abort OperatorError.overflow.message
  | .error invalid => typeError invalid.message

/-- An instruction for an operator that may not apply. -/
def arithmetic (op : Val → Val → Val.Result) : Handler :=
  computing2 fun a b => result (op a b)

/-- An instruction for an operator that applies to all values. -/
def total2 (op : Val → Val → Val) : Handler :=
  computing2 fun a b => return op a b

/-- An instruction for an operator on one operand that applies to all values. -/
def total1 (op : Val → Val) : Handler :=
  computing1 fun a => return op a

/-- A number as it is, anything else coerced. -/
def numeric (v : Val) : Val :=
  if v.isNumber then v else Val.ofNumber v.toNumber

end TaggedBytecode.Reference
