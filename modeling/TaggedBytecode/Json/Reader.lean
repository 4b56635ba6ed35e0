import TaggedBytecode.Json.Basic
import TaggedBytecode.Text.Utf16

/-!
# Reading JSON

A reader takes a text from the front and gives what it read with the rest of the text. Blanks
are space, tab, line feed and carriage return. A string is first taken apart into **pieces**,
plain characters and escaped UTF-16 units, and then assembled; only a pair of surrogates in
adjacent escapes is one character.

## Main definitions

* `Json.value` — reads a tree from the front of a text.
* `Json.ofText?` — the tree of a whole text.
-/

namespace TaggedBytecode.Json

def isBlank (c : Char) : Bool :=
  c == ' ' || c == '\n' || c == '\t' || c == '\r'

/-- Drops the blanks in front. -/
def skipBlanks (cs : List Char) : List Char := cs.dropWhile isBlank

/-! ### Strings -/

/-- A piece of a written string. -/
inductive Piece where
  | char (c : Char)
  /-- A UTF-16 unit written as an escape. -/
  | unit (u : UInt16)
  deriving DecidableEq, Repr

/-- The value of a hexadecimal digit of either case. -/
def hexValue? (c : Char) : Option Nat :=
  if '0' ≤ c ∧ c ≤ '9' then some (c.toNat - '0'.toNat)
  else if 'a' ≤ c ∧ c ≤ 'f' then some (c.toNat - 'a'.toNat + 10)
  else if 'A' ≤ c ∧ c ≤ 'F' then some (c.toNat - 'A'.toNat + 10)
  else none

/-- The unit of four hexadecimal digits. -/
def hexUnit? (a b c d : Char) : Option UInt16 := do
  let a ← hexValue? a
  let b ← hexValue? b
  let c ← hexValue? c
  let d ← hexValue? d
  return UInt16.ofNat (((a * 16 + b) * 16 + c) * 16 + d)

/-- The character of a one-letter escape. -/
def simpleEscape? : Char → Option Char
  | '"' => some '"'
  | '\\' => some '\\'
  | '/' => some '/'
  | 'b' => some '\x08'
  | 'f' => some '\x0c'
  | 'n' => some '\n'
  | 'r' => some '\r'
  | 't' => some '\t'
  | _ => none

/-- Reads the pieces of a string up to its closing quote. -/
def pieces : List Char → Option (List Piece × List Char)
  | [] => none
  | '"' :: rest => some ([], rest)
  | '\\' :: 'u' :: a :: b :: c :: d :: rest =>
    match hexUnit? a b c d with
    | some u => (pieces rest).map fun (ps, rest) => (.unit u :: ps, rest)
    | none => none
  | '\\' :: e :: rest =>
    match simpleEscape? e with
    | some c => (pieces rest).map fun (ps, rest) => (.char c :: ps, rest)
    | none => none
  | c :: rest =>
    if c = '\\' ∨ c.toNat < 0x20 then none
    else (pieces rest).map fun (ps, rest) => (.char c :: ps, rest)

/-- Assembles the characters of a string, if every escaped surrogate has a partner. -/
def assemble : List Piece → Option (List Char)
  | [] => some []
  | .char c :: rest => (assemble rest).map (c :: ·)
  | [.unit u] =>
    if Text.isHighSurrogate u || Text.isLowSurrogate u then none else some [Text.ofUnit u]
  | .unit u :: .unit v :: rest =>
    if Text.isHighSurrogate u then
      if Text.isLowSurrogate v then (assemble rest).map (Text.ofPair u v :: ·) else none
    else if Text.isLowSurrogate u then none
    else (assemble (.unit v :: rest)).map (Text.ofUnit u :: ·)
  | .unit u :: .char c :: rest =>
    if Text.isHighSurrogate u || Text.isLowSurrogate u then none
    else (assemble rest).map fun cs => Text.ofUnit u :: c :: cs

/-- Reads a string after its opening quote; no text if a surrogate is unpaired. -/
def stringBody (cs : List Char) : Option (Option String × List Char) :=
  (pieces cs).map fun (ps, rest) => ((assemble ps).map String.ofList, rest)

/-! ### Numbers -/

/-- Splits off a run of digits. -/
def spanDigits (cs : List Char) : List Char × List Char :=
  (cs.takeWhile Char.isDigit, cs.dropWhile Char.isDigit)

/-- Reads the whole part of a number: a zero alone, or digits that start with another one. -/
def wholePart (cs : List Char) : Option (List Char × List Char) :=
  match spanDigits cs with
  | (['0'], rest) => some (['0'], rest)
  | ('0' :: _, _) => none
  | ([], _) => none
  | (ds, rest) => some (ds, rest)

/-- Reads an optional fraction. -/
def fractionPart (cs : List Char) : Option (List Char × List Char) :=
  match cs with
  | '.' :: rest =>
    match spanDigits rest with
    | ([], _) => none
    | (ds, rest) => some ('.' :: ds, rest)
  | _ => some ([], cs)

/-- Reads an optional exponent. -/
def exponentPart (cs : List Char) : Option (List Char × List Char) :=
  match cs with
  | c :: rest =>
    if c = 'e' ∨ c = 'E' then
      let (sign, rest) :=
        match rest with
        | '+' :: rest => (['+'], rest)
        | '-' :: rest => (['-'], rest)
        | rest => ([], rest)
      match spanDigits rest with
      | ([], _) => none
      | (ds, rest) => some (c :: sign ++ ds, rest)
    else some ([], cs)
  | [] => some ([], cs)

/-- Reads a number and gives its lexeme. -/
def numberLexeme (cs : List Char) : Option (List Char × List Char) := do
  let (sign, rest) :=
    match cs with
    | '-' :: rest => (['-'], rest)
    | _ => ([], cs)
  let (whole, rest) ← wholePart rest
  let (fraction, rest) ← fractionPart rest
  let (exponent, rest) ← exponentPart rest
  return (sign ++ whole ++ fraction ++ exponent, rest)

/-! ### Trees -/

/-- The object of some members, if all of them have names. -/
def ofMembers (members : List (Option String × Json)) : Json :=
  let named := members.mapM fun (name, value) => name.map fun name => (name, value)
  named.elim .unreadable .object

mutual

/-- Reads a tree, blanks in front of it skipped. The fuel bounds the calls, of which reading a
text needs at most two for each of its characters. -/
def value : (fuel : Nat) → List Char → Option (Json × List Char)
  | 0, _ => none
  | fuel + 1, cs =>
    match skipBlanks cs with
    | 'n' :: 'u' :: 'l' :: 'l' :: rest => some (.null, rest)
    | 't' :: 'r' :: 'u' :: 'e' :: rest => some (.bool true, rest)
    | 'f' :: 'a' :: 'l' :: 's' :: 'e' :: rest => some (.bool false, rest)
    | '"' :: rest =>
      (stringBody rest).map fun (text, rest) => (text.elim .unreadable .string, rest)
    | '[' :: rest =>
      match skipBlanks rest with
      | ']' :: rest => some (.array [], rest)
      | rest => (items fuel rest).map fun (vs, rest) => (.array vs, rest)
    | '\x7b' :: rest =>
      match skipBlanks rest with
      | '\x7d' :: rest => some (.object [], rest)
      | rest => (members fuel rest).map fun (ms, rest) => (ofMembers ms, rest)
    | cs => (numberLexeme cs).map fun (lexeme, rest) => (.number (String.ofList lexeme), rest)

/-- Reads the items of an array, at least one, and its closing bracket. -/
def items : (fuel : Nat) → List Char → Option (List Json × List Char)
  | 0, _ => none
  | fuel + 1, cs =>
    match value fuel cs with
    | none => none
    | some (v, rest) =>
      match skipBlanks rest with
      | ',' :: rest => (items fuel rest).map fun (vs, rest) => (v :: vs, rest)
      | ']' :: rest => some ([v], rest)
      | _ => none

/-- Reads the members of an object, at least one, and its closing brace. -/
def members : (fuel : Nat) → List Char → Option (List (Option String × Json) × List Char)
  | 0, _ => none
  | fuel + 1, cs =>
    match skipBlanks cs with
    | '"' :: rest =>
      match stringBody rest with
      | some (name, rest) =>
        match skipBlanks rest with
        | ':' :: rest =>
          match value fuel rest with
          | none => none
          | some (v, rest) =>
            match skipBlanks rest with
            | ',' :: rest => (members fuel rest).map fun (ms, rest) => ((name, v) :: ms, rest)
            | '\x7d' :: rest => some ([(name, v)], rest)
            | _ => none
        | _ => none
      | none => none
    | _ => none

end

/-- The tree of a text that holds one value and blanks around it. -/
def ofText? (text : String) : Option Json :=
  let cs := text.toList
  match value (2 * cs.length + 2) cs with
  | some (tree, rest) => if (skipBlanks rest).isEmpty then some tree else none
  | none => none

/-- What a byte that belongs to no character is taken for. A string with one can be skipped,
but it has no text, and anywhere else it is an error. -/
def strayByte : List Char := "x\\ud800x".toList

end TaggedBytecode.Json
