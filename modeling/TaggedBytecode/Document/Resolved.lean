import TaggedBytecode.Document.Basic
import TaggedBytecode.Text.Integer

/-!
# Resolving Documents

Where no type is asked for, the type of a scalar is **resolved**. A plain scalar is null, a
truth value, an integer or another number if it is written as one, and text otherwise. A tag
says which of these a scalar has to be; any other tag makes it text, except for a **local**
tag, which nobody knows. What cannot be resolved is unreadable.

## Main definitions

* `Resolved` — what a document is where no type is asked for.
* `Document.resolved` — resolves a document.
* `Document.isReadable` — whether all of a document can be resolved.
-/

namespace TaggedBytecode

/-- What a document is where no type is asked for. -/
inductive Resolved where
  | null
  | bool (b : Bool)
  | natural (n : Nat)
  /-- An integer with a minus sign, which may be minus zero. -/
  | negative (n : Nat)
  | text (s : String)
  /-- A fraction or a collection. -/
  | other
  | unreadable
  deriving DecidableEq, Repr

namespace Resolved

/-- The integer, if it is one. -/
def integer? : Resolved → Option Int
  | natural n => some n
  | negative n => some (-(n : Int))
  | _ => none

def ofInt (n : Int) : Resolved := if n < 0 then negative n.natAbs else natural n.toNat

/-! ### Plain scalars -/

def isNullName (s : String) : Bool :=
  s == "null" || s == "Null" || s == "NULL" || s == "~"

def isNull (s : String) : Bool := s.isEmpty || isNullName s

def bool? (s : String) : Option Bool :=
  if s == "true" || s == "True" || s == "TRUE" then some true
  else if s == "false" || s == "False" || s == "FALSE" then some false
  else none

/-- Whether digits start with a zero that does not stand alone; such a scalar is text. -/
def hasLeadingZero (cs : List Char) : Bool :=
  match cs with
  | '0' :: rest => !rest.isEmpty && rest.all Char.isDigit
  | _ => false

/-- A natural number in decimal, or after `0x`, `0o` or `0b` in another base. -/
def nat? (cs : List Char) : Option Nat :=
  match cs with
  | '0' :: 'x' :: ds => Text.natIn? 16 ds
  | '0' :: 'o' :: ds => Text.natIn? 8 ds
  | '0' :: 'b' :: ds => Text.natIn? 2 ds
  | ds => if hasLeadingZero ds then none else Text.natIn? 10 ds

/-- An integer, if a scalar is written as one of at most 128 bits. Those of more than 64 bits
are unreadable. -/
def integerOf? (s : String) : Option Resolved :=
  let natural? (cs : List Char) : Option Resolved :=
    (nat? cs).bind fun n =>
      if n < 0x10000000000000000 then some (natural n)
      else if n < 0x100000000000000000000000000000000 then some unreadable
      else none
  match s.toList with
  | '+' :: cs => natural? cs
  | '-' :: cs =>
    (nat? cs).bind fun n =>
      if n ≤ 0x8000000000000000 then some (negative n)
      else if n ≤ 0x80000000000000000000000000000000 then some unreadable
      else none
  | cs => natural? cs

/-- Whether a scalar is written as a number in the range of binary64, or names one outside. -/
def isNumber (s : String) : Bool :=
  let name := String.ofList (Binary64.splitSign s.toList).2
  name == ".inf" || name == ".Inf" || name == ".INF" ||
    s == ".nan" || s == ".NaN" || s == ".NAN" ||
    (Binary64.ofNumeral? s.toList).any Binary64.isFinite

/-- What a plain scalar is. -/
def ofPlain (s : String) : Resolved :=
  if isNull s then null
  else
    match bool? s, integerOf? s with
    | some b, _ => bool b
    | none, some n => n
    | none, none =>
      if isNumber s && !hasLeadingZero (Binary64.splitSign s.toList).2 then other else text s

/-! ### Tags -/

/-- Whether a tag has a meaning in one text only. -/
def isLocalTag (tag : String) : Bool := tag.toList.head? == some '!'

/-- What a scalar with a tag is. -/
def ofTagged (tag s : String) : Resolved :=
  if isLocalTag tag then unreadable
  else
    match tag with
    | "tag:yaml.org,2002:null" => if isNullName s then null else unreadable
    | "tag:yaml.org,2002:bool" => (bool? s).elim unreadable bool
    | "tag:yaml.org,2002:int" => (integerOf? s).getD unreadable
    | "tag:yaml.org,2002:float" => if isNumber s then other else unreadable
    | _ => text s

end Resolved

namespace Document

/-- A document without its tag. -/
def untagged : Document → Document
  | .tagged _ d => d
  | d => d

/-- What a document is where no type is asked for. -/
def resolved : Document → Resolved
  | .null => .null
  | .bool b => .bool b
  | .integer n => .ofInt n
  | .text s => .text s
  | .plain s => .ofPlain s
  | .unreadable => .unreadable
  | .other | .sequence .. | .mapping _ => .other
  | .tagged tag d =>
    match d with
    | .text s | .plain s => .ofTagged tag s
    | _ => if Resolved.isLocalTag tag then .unreadable else .other

mutual

/-- Whether all of a document can be resolved. What is kept for a second reading has to be
readable as a whole. -/
def isReadable : Document → Bool
  | .sequence _ items => itemsReadable items
  | .mapping entries => entriesReadable entries
  | .tagged tag d =>
    (Document.tagged tag d).resolved != .unreadable && (d.resolved != .other || d.isReadable)
  | d => d.resolved != .unreadable

def itemsReadable : List Document → Bool
  | [] => true
  | d :: rest => d.isReadable && itemsReadable rest

def entriesReadable : List (Document × Document) → Bool
  | [] => true
  | (key, value) :: rest => key.isReadable && value.isReadable && entriesReadable rest

end

mutual

/-- How deep the collections of a document are nested. -/
def depth : Document → Nat
  | .sequence _ items => itemsDepth items + 1
  | .mapping entries => entriesDepth entries + 1
  | .tagged _ d => d.depth
  | _ => 0

def itemsDepth : List Document → Nat
  | [] => 0
  | d :: rest => max d.depth (itemsDepth rest)

def entriesDepth : List (Document × Document) → Nat
  | [] => 0
  | (key, value) :: rest => max (max key.depth value.depth) (entriesDepth rest)

end

end Document

end TaggedBytecode
