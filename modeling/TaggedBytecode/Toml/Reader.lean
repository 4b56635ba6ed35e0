import TaggedBytecode.Text.LineBreak
import TaggedBytecode.Toml.Scalar
import TaggedBytecode.Toml.Table

/-!
# Reading TOML

A text is a sequence of **statements**, each on a line of its own: the header of a table, the
header of a further table in an array, or an assignment to a dotted key, which belongs to the
last header. Inside brackets and braces line breaks and comments are free, and a comma may
follow the last item.

## Main definitions

* `Toml.value` — reads a value.
* `Toml.ofText?` — the document of a text.
-/

namespace TaggedBytecode.Toml

/-- Skips spaces and tabs. -/
def skipSpaces (cs : List Char) : List Char := cs.dropWhile isSpace

/-- Skips blanks, line breaks and comments. -/
def skipTrivia : (inComment : Bool) → List Char → List Char
  | _, [] => []
  | inComment, c :: rest =>
    if c = '\n' then skipTrivia false rest
    else if inComment || isSpace c then skipTrivia inComment rest
    else if c = '#' then skipTrivia true rest
    else c :: rest

/-- Skips the rest of a line, which holds nothing but a comment. -/
def endLine (cs : List Char) : Option (List Char) :=
  match skipSpaces cs with
  | [] => some []
  | '\n' :: rest => some rest
  | '#' :: rest => some ((rest.dropWhile (· != '\n')).drop 1)
  | _ => none

/-! ### Keys -/

/-- Whether a character may stand in a key without quotes. -/
def isBareKeyChar (c : Char) : Bool := c.isAlphanum || c == '_' || c == '-'

/-- Reads one part of a key. -/
def keyPart (cs : List Char) : Option (String × List Char) :=
  match cs with
  | '"' :: rest => shortString '"' rest
  | '\'' :: rest => shortString '\'' rest
  | _ =>
    let key := cs.takeWhile isBareKeyChar
    if key.isEmpty then none else some (String.ofList key, cs.dropWhile isBareKeyChar)

/-- Reads a dotted key and the spaces around it. -/
def keyPath : (fuel : Nat) → List Char → Option (List String × List Char)
  | 0, _ => none
  | fuel + 1, cs =>
    match keyPart (skipSpaces cs) with
    | none => none
    | some (key, rest) =>
      match skipSpaces rest with
      | '.' :: rest => (keyPath fuel rest).map fun (path, rest) => (key :: path, rest)
      | rest => some ([key], rest)

/-- Reads a dotted key. -/
def key (cs : List Char) : Option (List String × List Char) := keyPath (cs.length + 1) cs

/-! ### Values -/

/-- Whether a character ends a bare scalar. -/
def endsBare (c : Char) : Bool := isSpace c || "\n#,]\x7d".toList.contains c

/-- Reads a bare scalar. A space may stand between a date and a time. -/
def bareScalar (cs : List Char) : Option (Document × List Char) :=
  let isInside (c : Char) : Bool := !endsBare c
  let lexeme := cs.takeWhile isInside
  let rest := cs.dropWhile isInside
  let (lexeme, rest) :=
    match date lexeme, rest with
    | some [], ' ' :: c :: more =>
      if c.isDigit then
        (lexeme ++ ' ' :: (c :: more).takeWhile isInside, (c :: more).dropWhile isInside)
      else (lexeme, rest)
    | _, _ => (lexeme, rest)
  (bare? lexeme).map fun d => (d, rest)

/-- How deep arrays and tables in braces may be nested. -/
def maxNesting : Nat := 80

mutual

/-- Reads a value in which `room` collections may be nested. The fuel bounds the calls, of
which reading a text needs at most two for each of its characters. -/
def value (room : Nat) : (fuel : Nat) → List Char → Option (Document × List Char)
  | 0, _ => none
  | fuel + 1, cs =>
    match cs with
    | '[' :: rest =>
      if room = 0 then none
      else (items (room - 1) fuel rest).map fun (items, rest) => (.sequence .first items, rest)
    | '\x7b' :: rest =>
      if room = 0 then none
      else (entries (room - 1) fuel [] rest).map fun (t, rest) => (t.document, rest)
    | _ =>
      match string cs with
      | some result => result.map fun (s, rest) => (.text s, rest)
      | none => bareScalar cs

/-- Reads the items of an array and its closing bracket. -/
def items (room : Nat) : (fuel : Nat) → List Char → Option (List Document × List Char)
  | 0, _ => none
  | fuel + 1, cs =>
    match skipTrivia false cs with
    | ']' :: rest => some ([], rest)
    | cs =>
      match value room fuel cs with
      | none => none
      | some (item, rest) =>
        match skipTrivia false rest with
        | ',' :: rest => (items room fuel rest).map fun (items, rest) => (item :: items, rest)
        | ']' :: rest => some ([item], rest)
        | _ => none

/-- Reads the assignments in braces, after those in `t`, and the closing brace. -/
def entries (room : Nat) : (fuel : Nat) → (t : Table) → List Char →
    Option (Table × List Char)
  | 0, _, _ => none
  | fuel + 1, t, cs =>
    match skipTrivia false cs with
    | '\x7d' :: rest => some (t, rest)
    | cs => do
      let (path, rest) ← key cs
      let rest ← expect '=' (skipTrivia false rest)
      let (v, rest) ← value room fuel (skipTrivia false rest)
      let t ← t.assign path v
      match skipTrivia false rest with
      | ',' :: rest => entries room fuel t rest
      | '\x7d' :: rest => some (t, rest)
      | _ => none

end

/-! ### Statements -/

/-- Reads the rest of a text, given the last header and the tables so far. -/
def statements : (fuel : Nat) → (header : List String) → Table → List Char → Option Table
  | 0, _, _, _ => none
  | fuel + 1, header, t, cs =>
    match skipTrivia false cs with
    | [] => some t
    | '[' :: '[' :: rest => do
      let (path, rest) ← key rest
      let name ← path.getLast?
      let rest ← endLine (← expect ']' (← expect ']' rest))
      statements fuel path (← t.below path.dropLast (Table.addItem name)) rest
    | '[' :: rest => do
      let (path, rest) ← key rest
      let name ← path.getLast?
      let rest ← endLine (← expect ']' rest)
      statements fuel path (← t.below path.dropLast (Table.openTable name)) rest
    | cs => do
      let (path, rest) ← key cs
      let rest ← expect '=' rest
      let (v, rest) ← value maxNesting (2 * rest.length + 2) (skipSpaces rest)
      let rest ← endLine rest
      statements fuel header (← t.below header (Table.assign path v)) rest

/-- Whether a character may occur in a text. -/
def isAllowed (c : Char) : Bool :=
  c == '\t' || c == '\n' || (0x20 ≤ c.toNat && c.toNat != 0x7f)

/-- The document of a text. -/
def ofText? (text : String) : Option Document :=
  let cs := Text.unifyPairedBreaks text.toList
  let cs := if cs.head? == some '\ufeff' then cs.drop 1 else cs
  if cs.all isAllowed then (statements (cs.length + 1) [] [] cs).map Table.document else none

end TaggedBytecode.Toml
