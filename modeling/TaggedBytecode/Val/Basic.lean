import TaggedBytecode.Binary64.Basic
import TaggedBytecode.Collection.Assoc

/-!
# Runtime Values

The **values** that a program computes with. Numbers have two representations, 64-bit
integers and binary64 words, which are one type to the program. Lists and maps are immutable:
a write makes a new container. Every container has an **identity**, the number it was given
when it was made, and strict equality of containers is equality of identities.

## Main definitions

* `Val` — the type of values.
* `Val.same` — equality by content, blind to identities.
* `Val.isTruthy`, `Val.typeName` — the classifications that a program can observe.
-/

namespace TaggedBytecode

/-- A runtime value. The entries of a map are in ascending order of key. -/
inductive Val where
  | undefined
  | null
  | bool (b : Bool)
  | int (n : Int64)
  | float (x : Binary64)
  | str (s : String)
  | list (identity : Nat) (items : List Val)
  | map (identity : Nat) (entries : List (String × Val))
  deriving Inhabited

namespace Val

/-- The name of a value's type as a program sees it. -/
def typeName : Val → String
  | undefined => "undefined"
  | null | list .. | map .. => "object"
  | bool _ => "boolean"
  | int _ | float _ => "number"
  | str _ => "string"

/-- Whether a value counts as true in a condition. -/
def isTruthy : Val → Bool
  | undefined | null => false
  | bool b => b
  | int n => n != 0
  | float x => x.magnitude != 0 && !x.isNaN
  | str s => !s.isEmpty
  | list .. | map .. => true

def isNumber : Val → Bool
  | int _ | float _ => true
  | _ => false

def isContainer : Val → Bool
  | list .. | map .. => true
  | _ => false

/-- Whether a value stands for the absence of one. -/
def isNullish : Val → Bool
  | undefined | null => true
  | _ => false

def asStr? : Val → Option String
  | str s => some s
  | _ => none

/-! ### Equality by content -/

mutual

/-- Equality of representation and content. Identities are ignored, a NaN differs from
itself, and the two zeros are equal. -/
def same : Val → Val → Bool
  | undefined, undefined | null, null => true
  | bool a, bool b => a == b
  | int a, int b => a == b
  | float a, float b => a.equals b
  | str a, str b => a == b
  | list _ xs, list _ ys => sameItems xs ys
  | map _ es, map _ fs => sameEntries es fs
  | _, _ => false

/-- Item by item equality of two lists. -/
def sameItems : List Val → List Val → Bool
  | [], [] => true
  | x :: xs, y :: ys => same x y && sameItems xs ys
  | _, _ => false

/-- Entry by entry equality of two maps. -/
def sameEntries : List (String × Val) → List (String × Val) → Bool
  | [], [] => true
  | (k, x) :: es, (l, y) :: fs => k == l && same x y && sameEntries es fs
  | _, _ => false

end

end Val

end TaggedBytecode
