import TaggedBytecode.Machine.Table
import TaggedBytecode.Reference.Comparison
import TaggedBytecode.Reference.Control
import TaggedBytecode.Reference.Data

/-!
# The Reference Opcodes

The **reference opcodes** are 43 instructions. One table gives each its number, its metadata
and its handler, and both the opcode map and the handler registry are read off that table, so
that listings and runs agree on what an opcode is.

## Main definitions

* `Reference.opcodes` — the table.
* `Reference.map` — the metadata by number.
* `Reference.registry` — the handlers by name.
-/

namespace TaggedBytecode.Reference

/-- A row of the table of opcodes. -/
structure OpcodeRow where
  id : Nat
  info : OpcodeMeta
  handler : Handler

/-- A row in the order number, name, operation, operands, destination, handler, description. -/
def row (id : Nat) (name operation : String) (operands : OperandClass) (writes : Bool)
    (handler : Handler) (description : String) : OpcodeRow :=
  ⟨id, { name, operation, description, operands, writes }, handler⟩

/-- The reference opcodes. -/
def opcodes : List OpcodeRow :=
  [
    row 0 "STRICT_EQUAL" "===" .binary true (comparing Val.strictEq)
      "identity comparison",
    row 1 "INSTANCEOF" "instanceof" .binary true instanceOf
      "container kind check against a constructor name",
    row 2 "MULTIPLY" "*" .binary true (arithmetic Val.mul)
      "multiplication",
    row 3 "EQUAL" "==" .binary true (comparing Val.looseEq)
      "coercing comparison",
    row 4 "NOT_EQUAL" "!=" .binary true (comparing fun a b => !a.looseEq b)
      "negated coercing comparison",
    row 5 "LESS_THAN" "<" .binary true (comparing Val.lessThan)
      "ordering",
    row 6 "GREATER_THAN" ">" .binary true (comparing Val.greaterThan)
      "ordering",
    row 7 "ADD" "+" .binary true (arithmetic Val.add)
      "addition or string concatenation",
    row 8 "SUBTRACT" "-" .binary true (arithmetic Val.sub)
      "subtraction",
    row 9 "DIVIDE" "/" .binary true (arithmetic Val.div)
      "division",
    row 10 "MODULO" "%" .binary true (arithmetic Val.rem)
      "remainder",
    row 11 "BITWISE_AND" "&" .binary true (total2 Val.bitAnd)
      "32-bit and",
    row 12 "BITWISE_OR" "|" .binary true (total2 Val.bitOr)
      "32-bit or",
    row 13 "BITWISE_XOR" "^" .binary true (total2 Val.bitXor)
      "32-bit xor",
    row 14 "LEFT_SHIFT" "<<" .binary true (total2 Val.shiftLeft)
      "32-bit shift left",
    row 15 "RIGHT_SHIFT" ">>" .binary true (total2 Val.shiftRight)
      "32-bit arithmetic shift right",
    row 16 "LOGICAL_NOT" "!" .unary true (total1 fun a => .bool !a.isTruthy)
      "truthiness negation",
    row 17 "UNARY_PLUS" "+x" .unary true (total1 numeric)
      "numeric coercion",
    row 18 "PROPERTY_GET" "." .binary true propertyGet
      "property read",
    row 19 "PROPERTY_SET" ".=" .ternary false propertySet
      "property write through a variable",
    row 20 "CALL_FUNCTION" "call" (.call 1) true (callWith 1)
      "call with one argument",
    row 21 "NEW_ARRAY" "[]" .nullary true (creating fun identity => .list identity [])
      "empty list",
    row 22 "NEW_OBJECT" "\x7b\x7d" .nullary true (creating fun identity => .map identity [])
      "empty map",
    row 23 "JUMP" "goto" .jump false jump
      "unconditional jump",
    row 24 "JUMP_IF_FALSE" "if not" .branch false (branch false)
      "jump when falsy",
    row 25 "RETURN" "return" .unary false returnValue
      "leave the current call",
    row 26 "THROW" "throw" .unary false throwValue
      "raise an exception",
    row 27 "LOAD_VAR" "load" .unary true loadVar
      "copy a variable",
    row 28 "STORE_VAR" "store" .binary false storeVar
      "assign to the innermost binding",
    row 29 "LOAD_CONST" "const" .unary true (total1 id)
      "load a constant",
    row 30 "JUMP_IF_TRUE" "if" .branch false (branch true)
      "jump when truthy",
    row 31 "TYPEOF" "typeof" .unary true (total1 fun a => .str a.typeName)
      "type name",
    row 32 "TRY_ENTER" "try" .jump false tryEnter
      "open a scope with a handler target",
    row 33 "TRY_EXIT" "end try" .nullary false tryExit
      "close the current scope",
    row 34 "GET_EXCEPTION" "catch" .nullary true getException
      "read the pending exception",
    row 35 "CLEAR_EXCEPTION" "clear" .nullary false clearException
      "drop the pending exception",
    row 36 "HOST_CALL" "host" (.call 1) true (hostCallWith 1)
      "host capability with one argument",
    row 37 "HALT" "halt" .nullary false halt
      "stop the run",
    row 38 "CALL_FUNC_0ARGS" "call" (.call 0) true (callWith 0)
      "call without arguments",
    row 39 "CALL_FUNC_2ARGS" "call" (.call 2) true (callWith 2)
      "call with two arguments",
    row 40 "BITWISE_NOT" "~" .unary true (total1 Val.bitNot)
      "32-bit complement",
    row 41 "STRICT_NOT_EQUAL" "!==" .binary true (comparing fun a b => !a.strictEq b)
      "negated identity comparison",
    row 42 "HOST_CALL_2ARGS" "host" (.call 2) true (hostCallWith 2)
      "host capability with two arguments"]

/-- The metadata of the reference opcodes. -/
def map : OpcodeMap :=
  opcodes.foldl (fun map r => map.insert r.id r.info) {}

/-- The handlers of the reference opcodes. -/
def registry : HandlerRegistry :=
  .ofList (opcodes.map fun r => (r.info.name, r.handler))

end TaggedBytecode.Reference
