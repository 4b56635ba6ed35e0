import TaggedBytecode.Json.Basic

/-!
# Writing JSON

A tree is written **compactly**, without any blanks, or **indented**, with every item and
member on a line of its own, two spaces deeper than the line that opens it. Empty arrays and
objects are written compactly in both forms.

## Main definitions

* `Json.quote` — a string as JSON text.
* `Json.compact` — the compact text of a tree.
* `Json.indented` — the indented text of a tree.
-/

namespace TaggedBytecode.Json

/-- A digit of a four-digit escape, in lower case. -/
def hexDigit (n : Nat) : Char := Nat.digitChar n

/-- The written form of a character inside a string. Quotes, backslashes and controls are
escaped, and nothing else. -/
def escapeChar (c : Char) : List Char :=
  if c = '"' then ['\\', '"']
  else if c = '\\' then ['\\', '\\']
  else if c = '\x08' then ['\\', 'b']
  else if c = '\x0c' then ['\\', 'f']
  else if c = '\n' then ['\\', 'n']
  else if c = '\r' then ['\\', 'r']
  else if c = '\t' then ['\\', 't']
  else if c.toNat < 0x20 then
    ['\\', 'u', '0', '0', hexDigit (c.toNat / 16), hexDigit (c.toNat % 16)]
  else [c]

/-- A string as JSON text. -/
def quote (s : String) : List Char :=
  '"' :: s.toList.flatMap escapeChar ++ ['"']

/-! ### Compact text -/

mutual

/-- The compact text of a tree. -/
def compactChars : Json → List Char
  | null => "null".toList
  | bool true => "true".toList
  | bool false => "false".toList
  | number lexeme => lexeme.toList
  | string s => quote s
  | unreadable => "null".toList
  | array items => '[' :: compactItems items ++ [']']
  | object members => '\x7b' :: compactMembers members ++ ['\x7d']

/-- Items with commas between them. -/
def compactItems : List Json → List Char
  | [] => []
  | [item] => compactChars item
  | item :: rest => compactChars item ++ ',' :: compactItems rest

/-- Members with commas between them. -/
def compactMembers : List (String × Json) → List Char
  | [] => []
  | [(name, value)] => quote name ++ ':' :: compactChars value
  | (name, value) :: rest =>
    quote name ++ ':' :: compactChars value ++ ',' :: compactMembers rest

end

/-- The compact text of a tree. -/
def compact (tree : Json) : String := String.ofList tree.compactChars

/-! ### Indented text -/

/-- The start of a line at a depth. -/
def newline (depth : Nat) : List Char :=
  '\n' :: List.replicate (2 * depth) ' '

mutual

/-- The indented text of a tree whose opening line is at `depth`. -/
def indentedChars (depth : Nat) : Json → List Char
  | array [] => ['[', ']']
  | array items => '[' :: indentedItems (depth + 1) items ++ newline depth ++ [']']
  | object [] => ['\x7b', '\x7d']
  | object members =>
    '\x7b' :: indentedMembers (depth + 1) members ++ newline depth ++ ['\x7d']
  | null => "null".toList
  | bool true => "true".toList
  | bool false => "false".toList
  | number lexeme => lexeme.toList
  | string s => quote s
  | unreadable => "null".toList

/-- Items, each on a line at `depth`. -/
def indentedItems (depth : Nat) : List Json → List Char
  | [] => []
  | [item] => newline depth ++ indentedChars depth item
  | item :: rest =>
    newline depth ++ indentedChars depth item ++ ',' :: indentedItems depth rest

/-- Members, each on a line at `depth`. -/
def indentedMembers (depth : Nat) : List (String × Json) → List Char
  | [] => []
  | [(name, value)] => newline depth ++ quote name ++ ':' :: ' ' :: indentedChars depth value
  | (name, value) :: rest =>
    newline depth ++ quote name ++ ':' :: ' ' :: indentedChars depth value ++
      ',' :: indentedMembers depth rest

end

/-- The indented text of a tree. -/
def indented (tree : Json) : String := String.ofList (tree.indentedChars 0)

end TaggedBytecode.Json
