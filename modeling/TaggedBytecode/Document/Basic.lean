import TaggedBytecode.Binary64.Numeral
import TaggedBytecode.Json.Basic

/-!
# Documents

A **document** is what a JSON, YAML or TOML text contains, whichever of the three it is. Some
formats give every scalar a type; others have plain scalars, whose type is settled only by
what the reader of the document asks for.

## Main definitions

* `FieldPlaces`, `Document` — the common content of the formats.
* `Json.document` — the document of a JSON tree.
-/

namespace TaggedBytecode

/-- Whether a sequence may stand for a record, with its items as the fields in their order. -/
inductive FieldPlaces where
  /-- It never does. -/
  | never
  /-- It does, if the record has a field for every item. -/
  | all
  /-- It does; what is left over is skipped. -/
  | first
  deriving DecidableEq, Repr, Inhabited

/-- The content of a structured text. -/
inductive Document where
  | null
  | bool (b : Bool)
  | integer (n : Int)
  /-- A scalar of a type that no reader asks for, such as a fraction. -/
  | other
  | text (s : String)
  /-- A scalar that was written without quotes and can be read in several ways. -/
  | plain (s : String)
  /-- A scalar that stands for nothing and can only be skipped. -/
  | unreadable
  | sequence (places : FieldPlaces) (items : List Document)
  | mapping (entries : List (Document × Document))
  /-- A value with an explicit tag, which counts only where no type is asked for. -/
  | tagged (tag : String) (value : Document)
  deriving Inhabited

namespace Json

/-- The integer that a number is, if it is written as one and fits 64 bits, signed or not.
Minus zero is no integer. -/
def integerOf? (lexeme : String) : Option Int :=
  match lexeme.toList with
  | '-' :: ds =>
    if ds.all Char.isDigit && ds != ['0'] then
      let n := Binary64.digitsValue ds
      if n ≤ 0x8000000000000000 then some (-(n : Int)) else none
    else none
  | ds =>
    if ds.all Char.isDigit then
      let n := Binary64.digitsValue ds
      if n < 0x10000000000000000 then some n else none
    else none

/-- The document of a number. One that is too large for a binary64 word is unreadable. -/
def numberDocument (lexeme : String) : Document :=
  match integerOf? lexeme with
  | some n => .integer n
  | none =>
    match Binary64.ofNumeral? lexeme.toList with
    | some x => if x.isFinite then .other else .unreadable
    | none => .unreadable

mutual

/-- The document of a tree. -/
def document : Json → Document
  | null => .null
  | bool b => .bool b
  | number lexeme => numberDocument lexeme
  | string s => .text s
  | unreadable => .unreadable
  | array items => .sequence .all (documents items)
  | object members => .mapping (memberDocuments members)

def documents : List Json → List Document
  | [] => []
  | item :: rest => item.document :: documents rest

def memberDocuments : List (String × Json) → List (Document × Document)
  | [] => []
  | (name, value) :: rest => (.text name, value.document) :: memberDocuments rest

end

end Json

end TaggedBytecode
