import TaggedBytecode.Document.Resolved

/-!
# Shapes of Documents

A **shape** reads a value out of a document, and fails on a document of another shape. It takes
a plain scalar for what it asks for, and looks through tags.

A **record** is a mapping from field names, in any order, in which unknown fields are skipped
and a known field occurs at most once. A sequence may stand for one, with the last fields left
out as far as they have defaults.

## Main definitions

* `Shape` — readers of documents.
* `Shape.integer`, `Shape.bool`, `Shape.string`, `Shape.optional`, `Shape.listOf` — the shapes
  of simple values.
* `Shape.record` — the values of the fields of a record.
-/

namespace TaggedBytecode

/-- A reader of documents. -/
abbrev Shape (α : Type) := Document → Option α

namespace Shape

/-! ### Simple values -/

/-- An integer from `low` to `high`. -/
def integer (low high : Int) : Shape Int := fun d =>
  d.resolved.integer?.bind fun n => if low ≤ n ∧ n ≤ high then some n else none

def int32 : Shape Int32 := fun d =>
  (integer (-0x80000000) 0x7fffffff d).map Int32.ofInt

/-- A natural number of at most 64 bits. -/
def nat : Shape Nat := fun d =>
  (integer 0 0xffffffffffffffff d).map Int.toNat

def bool : Shape Bool := fun d =>
  match d.untagged with
  | .bool b => some b
  | .plain s => Resolved.bool? s
  | _ => none

def string : Shape String := fun d =>
  match d.untagged with
  | .text s | .plain s => some s
  | _ => none

/-- A value that may be null. -/
def optional (shape : Shape α) : Shape (Option α) := fun d =>
  if d.resolved = .null then some none else (shape d).map some

def listOf (shape : Shape α) : Shape (List α) := fun d =>
  match d.untagged with
  | .sequence _ items => items.mapM shape
  | _ => none

/-! ### Records -/

/-- A document where a mapping is asked for: a plain scalar with nothing in it is an empty
one. -/
def asMapping (d : Document) : Document :=
  match d.untagged with
  | .plain s => if s.isEmpty then .mapping [] else .plain s
  | d => d

/-- Reads the names of the entries of a mapping. -/
def named (entries : List (Document × Document)) : Option (List (String × Document)) :=
  entries.mapM fun (key, value) => (string key).map fun name => (name, value)

/-- Whether a sequence of `count` items may stand for a record of `size` fields, of which at
least the first `least` must be there. -/
def placesFit (places : FieldPlaces) (least size count : Nat) : Bool :=
  least ≤ count &&
    match places with
    | .never => false
    | .all => count ≤ size
    | .first => true

/-- The values of the fields `names` of a record, each if it is there. A sequence must have at
least the first `least` of them. -/
def record (names : List String) (least : Nat) : Shape (List (Option Document)) := fun d =>
  match asMapping d with
  | .mapping entries => do
    let members ← named entries
    let occurrences (name : String) : Nat := members.countP fun m => m.1 == name
    if names.all fun name => occurrences name ≤ 1 then
      some (names.map fun name => members.lookup name)
    else none
  | .sequence places items =>
    if placesFit places least names.length items.length then
      some ((List.range names.length).map fun i => items[i]?)
    else none
  | _ => none

/-- A field that must be there. -/
def required (shape : Shape α) (field : Option Document) : Option α :=
  field.bind shape

/-- A field with a default. -/
def withDefault (default : α) (shape : Shape α) (field : Option Document) : Option α :=
  match field with
  | some d => shape d
  | none => some default

end Shape

end TaggedBytecode
