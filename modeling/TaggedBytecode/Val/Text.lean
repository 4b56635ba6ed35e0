import TaggedBytecode.Binary64.Numeral
import TaggedBytecode.Val.Basic

/-!
# The Text of Values

The **text** of a value is what concatenation, property keys, messages and the console show.
Strings stand for themselves, also inside containers. A float that is whole and below
`10 ^ 21` in magnitude is written as a 64-bit integer, held at the ends of that range; other
finite floats are written by their shortest digits.

## Main definitions

* `numberText` — the text of a float.
* `Val.text` — the text of a value.
* `Val.key` — the key under which a map files a value.
-/

namespace TaggedBytecode

/-- The nearest 64-bit integer to an integer. -/
def clampInt64 (n : Int) : Int64 :=
  Int64.ofInt (max (-0x8000000000000000) (min n 0x7fffffffffffffff))

/-- The least magnitude at which a whole float is written in scientific form. -/
def wholeTextLimit : Nat := 1000000000000000000000

/-- The text of a float. -/
def numberText (x : Binary64) : String :=
  if x.isNaN then "NaN"
  else if x.isInfinite then if x.negative then "-Infinity" else "Infinity"
  else if x.isIntegral && x.truncate.natAbs < wholeTextLimit then
    toString (clampInt64 x.truncate).toInt
  else NumeralStyle.plain.write x

namespace Val

mutual

/-- The text of a value. -/
def text : Val → String
  | undefined => "undefined"
  | null => "null"
  | bool true => "true"
  | bool false => "false"
  | int n => toString n.toInt
  | float x => numberText x
  | str s => s
  | list _ items => itemsText "[" "" items ++ "]"
  | map _ entries => entriesText "\x7b" "" entries ++ "\x7d"

/-- Appends the texts of list items to `written`, the first after `separator`. -/
def itemsText (written separator : String) : List Val → String
  | [] => written
  | v :: rest => itemsText (written ++ separator ++ text v) ", " rest

/-- Appends map entries to `written`, the first after `separator`. -/
def entriesText (written separator : String) : List (String × Val) → String
  | [] => written
  | (k, v) :: rest => entriesText (written ++ separator ++ k ++ ": " ++ text v) ", " rest

end

/-- The key under which a map files a value: a string itself, or the text of anything else. -/
def key : Val → String
  | str s => s
  | v => v.text

end Val

end TaggedBytecode
