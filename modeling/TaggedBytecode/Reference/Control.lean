import TaggedBytecode.Machine.Execution

/-!
# Control Instructions

The instructions that decide where execution goes on: jumps, calls, exceptions and the end.

## Main definitions

* `Reference.branch` — a conditional jump.
* `Reference.tryEnter`, `Reference.tryExit`, `Reference.getException` — protected scopes.
* `Reference.callWith` — a call with a fixed number of arguments.
-/

namespace TaggedBytecode.Reference

def halt : Handler := return .halt

def jump : Handler := do
  HandlerM.jump (← HandlerM.target)
  return .continue

/-- Jumps if the truth of the condition is `expected`. The target is read in any case, and
checked only if the jump is made. -/
def branch (expected : Bool) : Handler := do
  let condition ← HandlerM.operand
  let target ← HandlerM.target
  if condition.isTruthy = expected then HandlerM.jump target
  return .continue

def returnValue : Handler := do
  return .return (← HandlerM.operand)

def throwValue : Handler := do
  HandlerM.throw (.exception (← HandlerM.operand))

/-- Enters a scope that catches at the target. -/
def tryEnter : Handler := do
  HandlerM.pushScope (some (← HandlerM.target))
  return .continue

/-- Leaves the current scope. -/
def tryExit : Handler := do
  HandlerM.popScope
  return .continue

/-- Writes the exception that was caught, or undefined, and disarms the frame, so that what is
thrown from here on leaves it. -/
def getException : Handler := do
  let _ ← HandlerM.clearHandler
  HandlerM.write ((← HandlerM.pending).getD .undefined)
  return .continue

/-- Forgets the exception that was caught. -/
def clearException : Handler := do
  let _ ← HandlerM.takePending
  return .continue

/-- Calls a value: an integer that is not negative is the address of bytecode, a string is the
name of a host capability, and nothing else can be called. -/
def invoke (callee : Val) (args : List Val) : HandlerM Val :=
  let refused := HandlerM.throw (.error ("TypeError: " ++ callee.text ++ " is not a function"))
  match callee with
  | .int entry => if entry < 0 then refused else HandlerM.call entry.toNatClampNeg args
  | .str name => HandlerM.callHost name args
  | _ => refused

/-- Calls the first operand with the `count` operands after it and writes what it returns. -/
def callWith (count : Nat) : Handler := do
  let callee ← HandlerM.operand
  let args ← HandlerM.operands count
  HandlerM.write (← invoke callee args)
  return .continue

/-- Calls the host capability that the first operand names. -/
def hostCallWith (count : Nat) : Handler := do
  let name ← HandlerM.operand
  let args ← HandlerM.operands count
  match name with
  | .str name =>
    HandlerM.write (← HandlerM.callHost name args)
    return .continue
  | other =>
    HandlerM.throw (.error
      ("TypeError: host capability name must be a string, got " ++ other.typeName))

end TaggedBytecode.Reference
