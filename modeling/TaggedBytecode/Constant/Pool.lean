import TaggedBytecode.Text.Utf16

/-!
# String Pools

A **string pool** is a table of UTF-16 units. A pooled string is named by an offset and a
length, both in units.

## Main definitions

* `StringPool.ofText` — the pool of a text.
* `StringPool.slice` — the text of a run of units.
-/

namespace TaggedBytecode

/-- A shared table of UTF-16 units. -/
structure StringPool where
  units : Array UInt16
  deriving DecidableEq, Inhabited, Repr

namespace StringPool

/-- The pool of a text. -/
def ofText (s : String) : StringPool := ⟨(Text.utf16Units s).toArray⟩

def length (pool : StringPool) : Nat := pool.units.size

/-- The text of `length` units from `offset` on, if the pool has them all. -/
def slice (pool : StringPool) (offset length : Nat) : Option String :=
  if offset + length ≤ pool.length then
    some (Text.ofUtf16 (pool.units.extract offset (offset + length)).toList)
  else none

end StringPool

end TaggedBytecode
