import TaggedBytecode.Reference.Arithmetic
import TaggedBytecode.Val.Comparison

/-!
# Comparison Instructions

The instructions that classify and compare values.

## Main definitions

* `Reference.comparing` — the shape of the comparisons.
* `Reference.instanceOf` — the test for a kind of container.
-/

namespace TaggedBytecode.Reference

/-- An instruction that writes the truth value of a relation of two operands. -/
def comparing (relation : Val → Val → Bool) : Handler :=
  total2 fun a b => .bool (relation a b)

/-- Whether a value is a container of the named kind. Lists are arrays and objects, maps are
objects, and no other name or value matches. -/
def isInstance : Val → String → Bool
  | .list .., name => name == "Array" || name == "Object"
  | .map .., name => name == "Object"
  | _, _ => false

/-- Tests whether a value is a container of the kind that the second operand names. -/
def instanceOf : Handler :=
  computing2 fun value kind =>
    match kind with
    | .str name => return .bool (isInstance value name)
    | other =>
      typeError ("Right-hand side of 'instanceof' is not callable (" ++ other.typeName ++ ")")

end TaggedBytecode.Reference
