import TaggedBytecode.Text.Integer

/-!
# Escaped Code Points

Several formats let a character be written as its **code point** in hexadecimal, with a fixed
number of digits. The numbers between the surrogates and those above the last plane are no
characters.

## Main definitions

* `Text.codePoint?` — reads such a number.
-/

namespace TaggedBytecode.Text

/-- Reads exactly `digits` hexadecimal digits as a code point. -/
def codePoint? (digits : Nat) (cs : List Char) : Option (Char × List Char) :=
  if cs.length < digits then none
  else
    match natIn? 16 (cs.take digits) with
    | some n => if n.isValidChar then some (Char.ofNat n, cs.drop digits) else none
    | none => none

end TaggedBytecode.Text
