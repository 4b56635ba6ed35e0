import TaggedBytecode.Constant.MarkerDocument
import TaggedBytecode.Container.Basic
import TaggedBytecode.Container.Bytes
import TaggedBytecode.Failure
import TaggedBytecode.Json.Reader
import TaggedBytecode.Json.Writer

/-!
# Section Payloads

The payload of the program section is the number of slots and then the slots, four bytes each.
Those of the marker table and of the provenance are JSON texts.

## Main definitions

* `Payload.ofProgram`, `Payload.program` — writing and reading a program.
* `Payload.ofMarkers`, `Payload.markers` — writing and reading a marker table.
* `Payload.ofProvenance`, `Payload.provenance` — writing and reading a provenance.
-/

namespace TaggedBytecode

namespace Provenance

/-- The notes of a provenance, by name. Of repeated names the last counts. -/
def tagsShape : Shape (List (String × String))
  | .mapping entries =>
    (entries.mapM fun (name, text) => do
      return (← Shape.string name, ← Shape.string text)).map Assoc.ofList
  | _ => none

/-- A provenance: a record of a source, which may be null, and notes. -/
def shape : Shape Provenance := fun d => do
  let [source, tags] ← Shape.record ["source", "tags"] 1 d | none
  return {
    source := ← Shape.withDefault none (Shape.optional Shape.string) source
    tags := ← Shape.withDefault [] tagsShape tags }

/-- The document form of a provenance. -/
def toJson (p : Provenance) : Json :=
  .object
    [("source", .option .string p.source),
      ("tags", .object (p.tags.map fun (name, text) => (name, .string text)))]

end Provenance

/-- The bytes in a section. -/
abbrev Payload := List UInt8

namespace Payload

/-! ### Programs -/

/-- The payload of a program. -/
def ofProgram (program : Program) : Payload :=
  Bytes.ofWord (UInt32.ofNat program.size) ++
    program.toList.flatMap fun v => Bytes.ofWord v.toUInt32

/-- The program of a payload, which holds exactly the slots that it says. -/
def program (payload : Payload) : Except ContainerError Program :=
  match Bytes.word? payload with
  | none => .error (.endOfBytes .word)
  | some (count, slots) =>
    if slots.length = 4 * count.toNat then
      .ok ((Bytes.words slots).map UInt32.toInt32).toArray
    else .error (.slotCount count.toNat slots.length)

/-! ### Documents -/

/-- The document in a payload. What is skipped in it need not be UTF-8. -/
def document? (payload : Payload) : Option Document :=
  (Json.ofText? (String.ofList (Bytes.chars Json.strayByte payload))).map Json.document

/-- Reads a value from the document in a payload. -/
def read (shape : Shape α) (payload : Payload) : Except Failure α :=
  match (document? payload).bind shape with
  | some value => .ok value
  | none => .error (.ofDocument .json)

/-- The payload of a marker table. -/
def ofMarkers (markers : Markers) : Payload := Bytes.ofText markers.toJson.compact

/-- The marker table of a payload, if it is valid. -/
def markers (payload : Payload) : Except Failure Markers := do
  let markers ← read Markers.shape payload
  faulting markers.validate
  return markers

/-- The payload of a provenance. -/
def ofProvenance (p : Provenance) : Payload := Bytes.ofText p.toJson.compact

/-- The provenance of a payload. -/
def provenance (payload : Payload) : Except Failure Provenance := read Provenance.shape payload

end Payload

end TaggedBytecode
