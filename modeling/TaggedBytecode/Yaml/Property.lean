import TaggedBytecode.Text.Integer
import TaggedBytecode.Yaml.Cursor
import TaggedBytecode.Yaml.Token

/-!
# Anchors, Tags and Directives of YAML

In front of a node there may be an **anchor**, by which an alias refers to it, and a **tag**,
which tells its type. A tag is written in full between angle brackets, or it starts with a
**handle**, two exclamation marks with a name between them or just one. Directives in front of
a document tell the version of the language and give meaning to handles.

## Main definitions

* `Yaml.anchorName`, `Yaml.tag`, `Yaml.directive` — readers.
-/

namespace TaggedBytecode.Yaml

/-! ### Anchors -/

/-- Reads the name of an anchor or an alias after its indicator. -/
def anchorName (c : Cursor) : Option (String × Cursor) :=
  let (name, c) := c.span isNameChar
  let ends := atWordEnd c.chars || c.chars.head?.any ("?:,]\x7d%@\x60".toList.contains ·)
  if name.isEmpty || !ends then none else some (String.ofList name, c)

/-! ### Tags -/

/-- Whether a character may stand in a tag. In a tag in full there may be flow characters. -/
def isTagChar (inFull : Bool) (c : Char) : Bool :=
  isNameChar c || ";/?:@&=+$.!~*'()".toList.contains c ||
    (inFull && (c == ',' || c == '[' || c == ']'))

/-- How many bytes the UTF-8 form of a character has by its first byte. -/
def utf8Width? (first : Nat) : Option Nat :=
  if first < 0x80 then some 1
  else if first < 0xc0 then none
  else if first < 0xe0 then some 2
  else if first < 0xf0 then some 3
  else if first < 0xf8 then some 4
  else none

/-- Reads the characters of a tag. Bytes may be escaped by a percent sign and two hexadecimal
digits; `owed` of those that make up a character are still to come. -/
def tagChars (inFull : Bool) : (owed : Nat) → List Char → Option (List Char × List Char)
  | owed, '%' :: a :: b :: rest => do
    let byte ← Text.natIn? 16 [a, b]
    let owed ←
      if owed = 0 then (utf8Width? byte).map (· - 1)
      else if 0x80 ≤ byte ∧ byte < 0xc0 then some (owed - 1)
      else none
    let (read, rest) ← tagChars inFull owed rest
    return (Char.ofNat byte :: read, rest)
  | owed, c :: rest =>
    if c = '%' ∨ owed ≠ 0 then none
    else if isTagChar inFull c then
      (tagChars inFull 0 rest).map fun (read, rest) => (c :: read, rest)
    else some ([], c :: rest)
  | owed, [] => if owed = 0 then some ([], []) else none

/-- Reads the characters of a tag from a cursor on. -/
def tagRun (inFull : Bool) (c : Cursor) : Option (List Char × Cursor) :=
  (tagChars inFull 0 c.chars).map fun (read, rest) =>
    (read, c.advance (c.chars.length - rest.length))

/-- Reads an exclamation mark, a name that may be empty, and an exclamation mark if there is
one. -/
def tagHandle (c : Cursor) : Option (List Char × Cursor) := do
  let c ← c.take? '!'
  let (name, c) := c.span isNameChar
  match c.take? '!' with
  | some c => return ('!' :: name ++ ['!'], c)
  | none => return ('!' :: name, c)

/-- Whether what `tagHandle` reads has two exclamation marks. -/
def isNamedHandle (handle : List Char) : Bool :=
  handle.length ≥ 2 && handle.getLast? == some '!'

/-- Reads a tag without looking at what follows it: its handle and the rest. A tag in full has
no handle, and neither has a lone exclamation mark. -/
def bareTag (c : Cursor) : Option (List Char × List Char × Cursor) :=
  match c.chars with
  | '!' :: '<' :: _ => do
    let (read, c) ← tagRun true c.step.step
    if read.isEmpty then none
    let c ← c.take? '>'
    return ([], read, c)
  | _ => do
    let (handle, c) ← tagHandle c
    let (read, c) ← tagRun false c
    if isNamedHandle handle then
      if read.isEmpty then none
      return (handle, read, c)
    match handle.drop 1 ++ read with
    | [] => return ([], ['!'], c)
    | rest => return (['!'], rest, c)

/-- Reads a tag. Behind it a word ends, or in flow structure an entry may. -/
def tag (inFlow : Bool) (c : Cursor) : Option (Token × Cursor) := do
  let (handle, rest, c) ← bareTag c
  if atWordEnd c.chars || (inFlow && c.chars.head? == some ',') then
    return (.tag (String.ofList handle) (String.ofList rest), c)
  else none

/-! ### Directives -/

/-- Reads a number of at most nine digits. -/
def versionNumber (c : Cursor) : Option (Nat × Cursor) :=
  let (digits, c) := c.span Char.isDigit
  if digits.length ≤ 9 then (Text.natIn? 10 digits).map fun n => (n, c) else none

/-- Reads the version of the language. -/
def versionDirective (c : Cursor) : Option (Token × Cursor) := do
  let (major, c) ← versionNumber (c.skipWhile isBlank)
  let (minor, c) ← versionNumber (← c.take? '.')
  return (.version major minor, c)

/-- Reads a handle and what it stands for. -/
def handleDirective (c : Cursor) : Option (Token × Cursor) := do
  let (handle, c) ← tagHandle (c.skipWhile isBlank)
  if handle.length ≠ 1 && !isNamedHandle handle then none
  if !c.chars.head?.any isBlank then none
  let (start, c) ← tagRun true (c.skipWhile isBlank)
  if start.isEmpty || !atWordEnd c.chars then none
  return (.handle (String.ofList handle) (String.ofList start), c)

/-- Reads a directive, its line to the end. -/
def directive (c : Cursor) : Option (Token × Cursor) := do
  let (name, c) := c.step.span isNameChar
  if !atWordEnd c.chars then none
  let (token, c) ←
    match String.ofList name with
    | "YAML" => versionDirective c
    | "TAG" => handleDirective c
    | _ => none
  return (token, ← c.endLine)

end TaggedBytecode.Yaml
