/-!
# JSON Trees

The **tree** of a JSON text. Numbers keep their lexemes, so that nothing is lost to a numeric
type, and objects keep their members in order, repeated names included.

## Main definitions

* `Json` — the tree.
* `Json.integer` — the tree of an integer.
-/

namespace TaggedBytecode

/-- The content of a JSON text. -/
inductive Json where
  | null
  | bool (b : Bool)
  /-- A number as it is written. -/
  | number (lexeme : String)
  | string (s : String)
  /-- What can only be skipped: a string with an escaped surrogate that has no partner, which
  has no text, or an object with such a name. -/
  | unreadable
  | array (items : List Json)
  | object (members : List (String × Json))
  deriving Inhabited

namespace Json

/-- The tree of an integer. -/
def integer (n : Int) : Json := number (toString n)

/-- The tree of a natural number. -/
def nat (n : Nat) : Json := integer n

/-- The tree of a value that may be absent. -/
def option (f : α → Json) : Option α → Json
  | none => null
  | some a => f a

/-- The value of a member; of repeated members, the first. -/
def member? (name : String) : Json → Option Json
  | object members => members.lookup name
  | _ => none

end Json

end TaggedBytecode
