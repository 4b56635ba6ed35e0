import TaggedBytecode.Text.Utf16
import TaggedBytecode.Val.Number
import TaggedBytecode.Val.Text

/-!
# Properties

A **property** is read from a list by index, from a map by key, and from a list or a string
under the name `length`. A missing property is undefined. A **property write** makes an
updated container: a list grows, filled with undefined values, up to a fixed bound, and a map
files the value under the key's text.

## Main definitions

* `PropertyError` — why a write is refused.
* `Val.getProperty` — reading.
* `Val.setProperty` — writing; the identity of the new container is given.
-/

namespace TaggedBytecode

/-- Why a property write is refused. -/
inductive PropertyError where
  /-- A list has no place of that name. -/
  | invalidIndex (key : String)
  /-- The list would grow past its bound. -/
  | tooLong (key : String)
  /-- Only containers have properties that can be written. -/
  | notContainer (key : String) (typeName : String)
  deriving DecidableEq, Repr

/-- The greatest length a list can reach through writes. -/
def maxListLength : Nat := 0x100000

namespace PropertyError

def message : PropertyError → String
  | invalidIndex key => "Invalid list index: " ++ key
  | tooLong key =>
    "List index " ++ key ++ " exceeds the maximum length of " ++ toString maxListLength
  | notContainer key typeName => "Cannot set property " ++ key ++ " on " ++ typeName

end PropertyError

/-- The list index a number denotes: the number itself if it is whole and not negative. -/
def Binary64.toIndex? (x : Binary64) : Option Nat :=
  if x.isIntegral && (!x.negative || x.magnitude == 0) then some x.truncate.toNat else none

namespace Val

/-- The length of a list or a string, in UTF-16 units for a string. -/
def ofLength (n : Nat) : Val := int (Int64.ofNat n)

/-- Reads a property. -/
def getProperty (object key : Val) : Val :=
  match object, key with
  | list _ items, str name => if name = "length" then ofLength items.length else undefined
  | str s, str name => if name = "length" then ofLength (Text.utf16Length s) else undefined
  | list _ items, key =>
    if key.isNumber then
      match key.toNumber.toIndex? with
      | some i => items[i]?.getD undefined
      | none => undefined
    else undefined
  | map _ entries, key => (Assoc.get? key.key entries).getD undefined
  | _, _ => undefined

/-- The items with `value` at `index`, padded with undefined values up to it. -/
def setItem (items : List Val) (index : Nat) (value : Val) : List Val :=
  (items ++ List.replicate (index + 1 - items.length) undefined).set index value

/-- The container with `value` under `key`, as the container with the given identity. -/
def setProperty (identity : Nat) (object key value : Val) : Except PropertyError Val :=
  match object with
  | list _ items =>
    match key.toNumber.toIndex? with
    | none => .error (.invalidIndex key.text)
    | some i =>
      if maxListLength ≤ i then .error (.tooLong key.text)
      else .ok (list identity (setItem items i value))
  | map _ entries => .ok (map identity (Assoc.insert key.key value entries))
  | object => .error (.notContainer key.text object.typeName)

end Val

end TaggedBytecode
