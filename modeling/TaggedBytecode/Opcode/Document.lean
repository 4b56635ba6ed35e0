import TaggedBytecode.Document.Shape
import TaggedBytecode.Failure
import TaggedBytecode.Opcode.Basic
import TaggedBytecode.Text.Blank
import TaggedBytecode.Text.Integer

/-!
# Opcode Documents

Opcode maps are loaded from **opcode documents**, records with the field `opcodes`, a mapping
from opcode numbers to metadata. A number may be written as an integer or as text, with blanks
around it; two keys for one number are refused.

A layout is kept until its kind is known, and read then. So everything in it has to be
readable, and must not be nested too deep.

## Main definitions

* `OpcodeDocument` — the metadata under integer keys and under text keys.
* `OpcodeDocument.shape` — reads one out of a document.
* `OpcodeMap.ofDocument`, `OpcodeMap.toDocument` — conversion from and to opcode maps.
-/

namespace TaggedBytecode

/-- The content of an opcode document. -/
structure OpcodeDocument where
  /-- Metadata under integer keys, ascending. -/
  ids : List (Int × OpcodeMeta) := []
  /-- Metadata under text keys, ascending. -/
  texts : List (String × OpcodeMeta) := []
  deriving DecidableEq, Repr

/-- The greatest opcode number. -/
def maxOpcodeId : Int := 0xffffffff

/-- How deep the collections of a document may be nested where they are all read. Deeper ones
can only be skipped. -/
def DocumentFormat.maxDepth : DocumentFormat → Option Nat
  | json => some 127
  | yaml => some 128
  | toml => none

namespace OperandClass

/-- The layout of a kind; `args` is read for calls only. -/
def ofKind? (kind : String) (args : Option Nat) : Option OperandClass :=
  match kind with
  | "nullary" => some nullary
  | "unary" => some unary
  | "binary" => some binary
  | "ternary" => some ternary
  | "call" => args.map call
  | "jump" => some jump
  | "branch" => some branch
  | _ => none

/-- The number of arguments of a call. -/
def argsShape : Shape Nat := fun d => (Shape.integer 0 255 d).map Int.toNat

/-- Whether the key of a field of a call names the arguments, if it can be the key of a field:
fields go by name or by number. -/
def namesArgs? (key : Document) : Option Bool :=
  match key.resolved with
  | .text name => some (name == "args")
  | .natural n => some (n == 0)
  | _ => none

/-- The number of arguments among the fields of a call. -/
def argsOfFields? (fields : List (Document × Document)) : Option Nat := do
  let marked ← fields.mapM fun (key, value) => (namesArgs? key).map fun isArgs => (isArgs, value)
  let [(_, args)] := marked.filter Prod.fst | none
  argsShape args

/-- A layout: a record with the field `kind`, and the field `args` for calls, where the other
kinds take no notice of the other fields. As a sequence it has exactly the fields its kind
needs. -/
def shape : Shape OperandClass := fun d =>
  if d.resolved = .unreadable then none
  else
    match d.untagged with
    | .mapping entries => do
      let isKind (entry : Document × Document) : Bool := entry.1.resolved == .text "kind"
      let [(_, kind)] := entries.filter isKind | none
      let fields := entries.filter fun entry => !isKind entry
      if !Document.entriesReadable fields then none
      let kind ← Shape.string kind
      if kind == "call" then ofKind? kind (← argsOfFields? fields) else ofKind? kind none
    | .sequence _ [kind] => do ofKind? (← Shape.string kind) none
    | .sequence _ [kind, args] => do
      if (← Shape.string kind) == "call" then ofKind? "call" (← argsShape args) else none
    | _ => none

/-- A layout that stands in other collections, of which there are `outer`, one in the other. -/
def shapeWithin (maxDepth : Option Nat) (outer : Nat) : Shape OperandClass := fun d =>
  if maxDepth.all fun deepest => outer + d.depth ≤ deepest then shape d else none

end OperandClass

namespace OpcodeMeta

/-- The metadata of an opcode: a record of which only the name is required. It stands in two
other collections. -/
def shape (maxDepth : Option Nat) : Shape OpcodeMeta := fun d => do
  let [name, operation, description, operands, writes] ←
    Shape.record ["name", "operation", "description", "class", "writes"] 1 d | none
  return {
    name := ← Shape.required Shape.string name
    operation := ← Shape.withDefault "" Shape.string operation
    description := ← Shape.withDefault "" Shape.string description
    operands := ← Shape.withDefault .nullary (OperandClass.shapeWithin maxDepth 3) operands
    writes := ← Shape.withDefault false Shape.bool writes }

/-- The document form of metadata. An empty description is left out. -/
def toJson (info : OpcodeMeta) : Json :=
  let args :=
    match info.operands with
    | .call args => [("args", Json.nat args)]
    | _ => []
  .object
    ([("name", .string info.name), ("operation", .string info.operation)] ++
      (if info.description.isEmpty then [] else [("description", .string info.description)]) ++
      [("class", .object (("kind", .string info.operands.kind) :: args)),
        ("writes", .bool info.writes)])

end OpcodeMeta

namespace OpcodeDocument

/-- Files metadata under a key: text, or an integer of 64 bits with its sign. A later entry of
a key replaces an earlier one. -/
def insert? (doc : OpcodeDocument) (key : Document) (info : OpcodeMeta) :
    Option OpcodeDocument :=
  match key.resolved with
  | .text s => some { doc with texts := Assoc.insert s info doc.texts }
  | r =>
    r.integer?.bind fun n =>
      if -0x8000000000000000 ≤ n ∧ n < 0x8000000000000000 then
        some { doc with ids := Assoc.insert n info doc.ids }
      else none

/-- The mapping from keys to metadata. -/
def entriesShape (maxDepth : Option Nat) : Shape OpcodeDocument := fun d =>
  match Shape.asMapping d with
  | .mapping entries =>
    entries.foldlM
      (fun doc (key, value) => do
        let info ← OpcodeMeta.shape maxDepth value
        doc.insert? key info)
      {}
  | _ => none

/-- An opcode document. -/
def shape (maxDepth : Option Nat) : Shape OpcodeDocument := fun d => do
  let [entries] ← Shape.record ["opcodes"] 0 d | none
  Shape.withDefault {} (entriesShape maxDepth) entries

/-- The document form of an opcode document. -/
def toJson (doc : OpcodeDocument) : Json :=
  .object
    [("opcodes", .object
      (doc.ids.map (fun (n, info) => (toString n, info.toJson)) ++
        doc.texts.map fun (s, info) => (s, info.toJson)))]

end OpcodeDocument

namespace OpcodeMap

/-- The number that a text key denotes. -/
def idOfText (key : String) : Except Failure Int :=
  match Text.int64? (Text.trimChars key.toList) with
  | .ok n => .ok n
  | .error e =>
    .error (Failure.note ("Opcode key " ++ Text.quote key ++ " is not a number")
      (.ofMessage e.message))

/-- Adds an opcode under a number that must be in range and free. -/
def addId (map : OpcodeMap) (id : Int) (info : OpcodeMeta) : Except Failure OpcodeMap :=
  if id < 0 ∨ maxOpcodeId < id then
    .error (.ofMessage ("Opcode id " ++ toString id ++ " out of range"))
  else if (map.find? id.toNat).isSome then
    .error (.ofMessage ("Duplicate opcode id " ++ toString id))
  else .ok (map.insert id.toNat info)

/-- The map of a document: the integer keys are taken first, then the text keys. -/
def ofDocument (doc : OpcodeDocument) : Except Failure OpcodeMap := do
  let map ← doc.ids.foldlM (fun map (id, info) => map.addId id info) {}
  doc.texts.foldlM (fun map (key, info) => do map.addId (← idOfText key) info) map

/-- The document of a map, with its numbers as text keys. -/
def toDocument (map : OpcodeMap) : OpcodeDocument where
  texts := Assoc.ofList (map.entries.map fun (id, info) => (toString id, info))

/-- The map in the content of a text, if the text has any. -/
def ofContent (format : DocumentFormat) (content : Option Document) : Except Failure OpcodeMap :=
  match content.bind (OpcodeDocument.shape format.maxDepth) with
  | some doc => ofDocument doc
  | none =>
    .error (Failure.note ("Failed to parse opcode map " ++ format.name) (.ofDocument format))

end OpcodeMap

end TaggedBytecode
