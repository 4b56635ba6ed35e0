import TaggedBytecode.Reference.Arithmetic
import TaggedBytecode.Val.Property

/-!
# Data Instructions

The instructions that move values between variables, constants and containers. Containers are
immutable, so a property write makes an updated container and assigns it to the variable that
held the old one.

## Main definitions

* `Reference.propertyGet`, `Reference.propertySet` — properties.
* `Reference.loadVar`, `Reference.storeVar` — variables.
-/

namespace TaggedBytecode.Reference

/-- Writes a new container. -/
def creating (make : Nat → Val) : Handler := do
  HandlerM.write (make (← HandlerM.newIdentity))
  return .continue

/-- Copies a variable. -/
def loadVar : Handler := do
  HandlerM.write (← HandlerM.readVar)
  return .continue

/-- Assigns a variable. -/
def storeVar : Handler := do
  let slot ← HandlerM.binding
  HandlerM.assign slot (← HandlerM.operand)
  return .continue

/-- Reads a property. Absent values have none. -/
def propertyGet : Handler :=
  computing2 fun object key =>
    if object.isNullish then
      typeError ("Cannot read properties of " ++ object.text ++ " (reading '" ++ key.text ++ "')")
    else return object.getProperty key

/-- Writes a property of the container that a variable holds. -/
def propertySet : Handler := do
  let slot ← HandlerM.binding
  let key ← HandlerM.operand
  let value ← HandlerM.operand
  let object ← HandlerM.lookUp slot
  let identity ← HandlerM.newIdentity
  match object.setProperty identity key value with
  | .ok updated =>
    HandlerM.assign slot updated
    return .continue
  | .error refusal => typeError refusal.message

end TaggedBytecode.Reference
