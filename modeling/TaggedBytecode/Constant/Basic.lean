import TaggedBytecode.Text.Quoted
import TaggedBytecode.Val.Text

/-!
# Constants

A **constant** is what one inline operand of an instruction spells: a literal, or a reference
to a variable slot. Its listing text quotes strings and writes references as `v` and the slot
number.

## Main definitions

* `Constant` — the seven kinds of constant.
* `Constant.toVal?` — the value of a literal.
* `Constant.text` — the text of a constant in listings and messages.
-/

namespace TaggedBytecode

/-- An operand of an instruction. -/
inductive Constant where
  | smallInt (n : Int32)
  | float64 (x : Binary64)
  | bool (b : Bool)
  | null
  | str (s : String)
  | varRef (slot : Nat)
  | undefined
  deriving DecidableEq, Inhabited, Repr

namespace Constant

/-- The value of a literal. A reference has none without frames to look it up in. -/
def toVal? : Constant → Option Val
  | smallInt n => some (.int n.toInt64)
  | float64 x => some (.float x)
  | bool b => some (.bool b)
  | null => some .null
  | str s => some (.str s)
  | varRef _ => none
  | undefined => some .undefined

/-- The text of a constant. -/
def text : Constant → String
  | smallInt n => toString n.toInt
  | float64 x => numberText x
  | bool true => "true"
  | bool false => "false"
  | null => "null"
  | str s => Text.quote s
  | varRef slot => "v" ++ toString slot
  | undefined => "undefined"

/-- The name of a constant's kind. -/
def kind : Constant → String
  | smallInt _ => "small-int"
  | float64 _ => "float64"
  | bool _ => "bool"
  | null => "null"
  | str _ => "str"
  | varRef _ => "var-ref"
  | undefined => "undefined"

end Constant

end TaggedBytecode
