import TaggedBytecode.Document.Basic
import TaggedBytecode.Text.CodePoint

/-!
# TOML Scalars

A string is **basic**, between double quotes and with escapes, or **literal**, between single
quotes and without. Three quotes at either end let it run over several lines. All other
scalars are written bare: truth values, integers, fractions, dates and times. An underscore
may stand between two digits.

## Main definitions

* `Toml.string` — reads a string of any style.
* `Toml.bare?` — the scalar that a bare lexeme is.
-/

namespace TaggedBytecode.Toml

/-! ### Strings -/

/-- The character of a one-letter escape. -/
def simpleEscape? : Char → Option Char
  | 'b' => some '\x08'
  | 't' => some '\t'
  | 'n' => some '\n'
  | 'f' => some '\x0c'
  | 'r' => some '\r'
  | 'e' => some '\x1b'
  | '"' => some '"'
  | '\\' => some '\\'
  | _ => none

/-- Reads what follows the backslash of an escape. -/
def escape : List Char → Option (Char × List Char)
  | 'x' :: rest => Text.codePoint? 2 rest
  | 'u' :: rest => Text.codePoint? 4 rest
  | 'U' :: rest => Text.codePoint? 8 rest
  | e :: rest => (simpleEscape? e).map fun c => (c, rest)
  | [] => none

def isSpace (c : Char) : Bool := c == ' ' || c == '\t'

/-- What is left after a line break and the blanks around it, which a backslash at the end of
a line takes away. -/
def skipFold? (cs : List Char) : Option (List Char) :=
  match cs.dropWhile isSpace with
  | '\n' :: rest => some (rest.dropWhile fun c => isSpace c || c == '\n')
  | _ => none

/-- Reads a string after its opening quotes; `read` is its text so far, reversed. Up to two
quotes right before the closing ones of a long string belong to it. -/
def stringBody (quote : Char) (long : Bool) :
    (fuel : Nat) → (read : List Char) → List Char → Option (String × List Char)
  | 0, _, _ => none
  | _ + 1, _, [] => none
  | fuel + 1, read, c :: rest =>
    if c = quote then
      if long then
        let run := 1 + (rest.takeWhile (· == quote)).length
        if run < 3 then stringBody quote long fuel (c :: read) rest
        else if run ≤ 5 then
          let inside := List.replicate (run - 3) quote
          some (String.ofList (read.reverse ++ inside), rest.drop (run - 1))
        else none
      else some (String.ofList read.reverse, rest)
    else if c = '\\' ∧ quote = '"' then
      match if long then skipFold? rest else none with
      | some rest => stringBody quote long fuel read rest
      | none =>
        match escape rest with
        | some (e, rest) => stringBody quote long fuel (e :: read) rest
        | none => none
    else if c = '\n' ∧ !long then none
    else stringBody quote long fuel (c :: read) rest

/-- Reads a string on one line after its opening quote. -/
def shortString (quote : Char) (cs : List Char) : Option (String × List Char) :=
  stringBody quote false (cs.length + 1) [] cs

/-- Reads a string after its three opening quotes. A line break right behind these is dropped. -/
def longString (quote : Char) (cs : List Char) : Option (String × List Char) :=
  let cs := if cs.head? == some '\n' then cs.drop 1 else cs
  stringBody quote true (cs.length + 1) [] cs

/-- Reads a string of any style, if one starts here. -/
def string (cs : List Char) : Option (Option (String × List Char)) :=
  match cs with
  | '"' :: '"' :: '"' :: rest => some (longString '"' rest)
  | '\'' :: '\'' :: '\'' :: rest => some (longString '\'' rest)
  | '"' :: rest => some (shortString '"' rest)
  | '\'' :: rest => some (shortString '\'' rest)
  | _ => none

/-! ### Numbers -/

/-- At least one digit, without the underscores that separate groups of them. Between two
underscores and at either end there must be a digit; `afterDigit` says whether one was just
read. -/
def grouped? (isDigit : Char → Bool) : (afterDigit : Bool) → List Char → Option (List Char)
  | afterDigit, [] => if afterDigit then some [] else none
  | afterDigit, c :: rest =>
    if c = '_' then if afterDigit then grouped? isDigit false rest else none
    else if isDigit c then (grouped? isDigit true rest).map (c :: ·)
    else none

/-- The digits of a whole number, which starts with a zero only if that is all of it. -/
def whole? (cs : List Char) : Option (List Char) :=
  match cs with
  | '0' :: _ :: _ => none
  | _ => grouped? Char.isDigit false cs

/-- A number in a base that is no power of ten. -/
def based? (base : Nat) (cs : List Char) : Option Int :=
  (grouped? (fun c => (Text.digitValue? base c).isSome) false cs).bind fun ds =>
    (Text.natIn? base ds).map Int.ofNat

/-- An integer. Only decimal ones have a sign. -/
def integer? (cs : List Char) : Option Int :=
  let decimal (ds : List Char) : Option Int :=
    (whole? ds).bind fun ds => (Text.natIn? 10 ds).map Int.ofNat
  match cs with
  | '0' :: 'x' :: ds => based? 16 ds
  | '0' :: 'o' :: ds => based? 8 ds
  | '0' :: 'b' :: ds => based? 2 ds
  | '+' :: ds => decimal ds
  | '-' :: ds => (decimal ds).map fun n => -n
  | ds => decimal ds

/-- Whether digits may follow the exponent mark of a fraction. -/
def isExponent (cs : List Char) : Bool :=
  (grouped? Char.isDigit false (Binary64.splitSign cs).2).isSome

/-- Whether a lexeme is a fraction in the range of binary64, or names one outside it. -/
def isFraction (cs : List Char) : Bool :=
  let unsigned := (Binary64.splitSign cs).2
  if unsigned = ['i', 'n', 'f'] ∨ unsigned = ['n', 'a', 'n'] then true
  else
    let isMark (c : Char) : Bool := c == 'e' || c == 'E'
    let mantissa := unsigned.takeWhile fun c => !isMark c
    let exponent := unsigned.dropWhile fun c => !isMark c
    let whole := mantissa.takeWhile (· != '.')
    let places := mantissa.dropWhile (· != '.')
    (whole? whole).isSome &&
      (exponent.isEmpty || isExponent (exponent.drop 1)) &&
      (places.isEmpty || (grouped? Char.isDigit false (places.drop 1)).isSome) &&
      !(exponent.isEmpty && places.isEmpty) &&
      ((Binary64.ofNumeral? (cs.filter (· != '_'))).elim false Binary64.isFinite)

/-! ### Dates and times -/

/-- Reads a number of exactly `width` digits between two bounds. -/
def dateField (width low high : Nat) (cs : List Char) : Option (Nat × List Char) :=
  let ds := cs.take width
  if ds.length = width ∧ ds.all Char.isDigit then
    match Text.natIn? 10 ds with
    | some n => if low ≤ n ∧ n ≤ high then some (n, cs.drop width) else none
    | none => none
  else none

/-- Reads a character that has to be there. -/
def expect (c : Char) : List Char → Option (List Char)
  | d :: rest => if d = c then some rest else none
  | [] => none

/-- The number of days in a month. -/
def daysIn (year month : Nat) : Nat :=
  if month = 2 then
    if year % 4 = 0 ∧ (year % 100 ≠ 0 ∨ year % 400 = 0) then 29 else 28
  else if month = 4 ∨ month = 6 ∨ month = 9 ∨ month = 11 then 30
  else 31

/-- Reads a date. -/
def date (cs : List Char) : Option (List Char) := do
  let (year, cs) ← dateField 4 0 9999 cs
  let (month, cs) ← dateField 2 1 12 (← expect '-' cs)
  let (_, cs) ← dateField 2 1 (daysIn year month) (← expect '-' cs)
  return cs

/-- Reads a time of day. The seconds and their fraction may be left out. -/
def timeOfDay (cs : List Char) : Option (List Char) := do
  let (_, cs) ← dateField 2 0 23 cs
  let (_, cs) ← dateField 2 0 59 (← expect ':' cs)
  match cs with
  | ':' :: cs =>
    let (_, cs) ← dateField 2 0 60 cs
    match cs with
    | '.' :: c :: cs => if c.isDigit then return cs.dropWhile Char.isDigit else none
    | _ => return cs
  | _ => return cs

/-- Reads an optional distance from universal time. -/
def timeOffset (cs : List Char) : Option (List Char) := do
  match cs with
  | 'Z' :: cs | 'z' :: cs => return cs
  | '+' :: cs | '-' :: cs =>
    let (_, cs) ← dateField 2 0 23 cs
    let (_, cs) ← dateField 2 0 59 (← expect ':' cs)
    return cs
  | _ => return cs

/-- Whether a lexeme is a date, a time of day or both. -/
def isDateTime (cs : List Char) : Bool :=
  match date cs with
  | some [] => true
  | some (c :: rest) =>
    (c == 'T' || c == 't' || c == ' ') && (timeOfDay rest).bind timeOffset == some []
  | none => timeOfDay cs == some []

/-! ### Bare scalars -/

/-- The scalar of a bare lexeme. Integers of more than 64 bits can only be skipped, up to 128
bits, and a date is a mapping with one entry that nobody asks for. -/
def bare? (lexeme : List Char) : Option Document :=
  match lexeme with
  | ['t', 'r', 'u', 'e'] => some (.bool true)
  | ['f', 'a', 'l', 's', 'e'] => some (.bool false)
  | _ =>
    match integer? lexeme with
    | some n =>
      if -0x8000000000000000 ≤ n ∧ n < 0x10000000000000000 then some (.integer n)
      else if -0x80000000000000000000000000000000 ≤ n ∧
          n < 0x100000000000000000000000000000000 then some .unreadable
      else none
    | none =>
      if isFraction lexeme then some .other
      else if isDateTime lexeme then
        some (.mapping [(.text "date-time", .text (String.ofList lexeme))])
      else none

end TaggedBytecode.Toml
