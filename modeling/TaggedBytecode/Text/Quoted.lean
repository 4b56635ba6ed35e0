import TaggedBytecode.Text.Visible

/-!
# Quoted Text

A text or a character is **quoted** for a message so that every character can be read off:
the usual controls and the delimiter are written with a backslash, and a character that is
not visible is written by its code point.

## Main definitions

* `Text.quote` — a text between double quotes.
* `Text.quoteChar` — a character between single quotes.
-/

namespace TaggedBytecode.Text

/-- A code point in braces, in lower-case hexadecimal. -/
def codePointEscape (c : Char) : List Char :=
  ['\\', 'u', '\x7b'] ++ Nat.toDigits 16 c.toNat ++ ['\x7d']

/-- The written form of a character between quotes of the kind `delimiter`. -/
def escapeChar (delimiter c : Char) : List Char :=
  if c = '\x00' then ['\\', '0']
  else if c = '\t' then ['\\', 't']
  else if c = '\r' then ['\\', 'r']
  else if c = '\n' then ['\\', 'n']
  else if c = '\\' ∨ c = delimiter then ['\\', c]
  else if isVisible c then [c]
  else codePointEscape c

/-- A text between double quotes. -/
def quote (s : String) : String :=
  String.ofList ('"' :: s.toList.flatMap (escapeChar '"') ++ ['"'])

/-- A character between single quotes. -/
def quoteChar (c : Char) : String :=
  String.ofList ('\'' :: escapeChar '\'' c ++ ['\''])

end TaggedBytecode.Text
