/-!
# UTF-16 Code Units

Texts are measured and sliced in **UTF-16 code units**: a character of the basic plane is one
unit, any other is a surrogate pair. Assembling units into text is lossy: a surrogate without
its partner becomes the replacement character.

## Main definitions

* `Text.utf16Units` — the units of a text.
* `Text.ofUtf16` — the text of a list of units.
* `Text.utf16Length` — the number of units of a text.
-/

namespace TaggedBytecode.Text

/-- What stands for a unit that is no character. -/
def replacement : Char := '\ufffd'

def isHighSurrogate (u : UInt16) : Bool := 0xd800 ≤ u.toNat && u.toNat < 0xdc00

def isLowSurrogate (u : UInt16) : Bool := 0xdc00 ≤ u.toNat && u.toNat < 0xe000

/-- The character of a single unit. -/
def ofUnit (u : UInt16) : Char :=
  if isHighSurrogate u || isLowSurrogate u then replacement else Char.ofNat u.toNat

/-- The character of a surrogate pair. -/
def ofPair (high low : UInt16) : Char :=
  Char.ofNat (0x10000 + (high.toNat - 0xd800) * 0x400 + (low.toNat - 0xdc00))

/-- Assembles characters from units, pairing surrogates from the left. -/
def charsOfUnits : List UInt16 → List Char
  | [] => []
  | [u] => [ofUnit u]
  | u :: v :: rest =>
    if isHighSurrogate u && isLowSurrogate v then ofPair u v :: charsOfUnits rest
    else ofUnit u :: charsOfUnits (v :: rest)

/-- The text of a list of units. -/
def ofUtf16 (units : List UInt16) : String :=
  String.ofList (charsOfUnits units)

/-- The units of a character. -/
def unitsOfChar (c : Char) : List UInt16 :=
  if c.toNat < 0x10000 then [UInt16.ofNat c.toNat]
  else
    let offset := c.toNat - 0x10000
    [UInt16.ofNat (0xd800 + offset / 0x400), UInt16.ofNat (0xdc00 + offset % 0x400)]

/-- The units of a text. -/
def utf16Units (s : String) : List UInt16 :=
  s.toList.flatMap unitsOfChar

/-- The number of units of a text. -/
def utf16Length (s : String) : Nat :=
  s.toList.foldl (fun n c => n + if c.toNat < 0x10000 then 1 else 2) 0

end TaggedBytecode.Text
