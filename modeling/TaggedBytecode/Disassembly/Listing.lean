import TaggedBytecode.Binary64.Numeral
import TaggedBytecode.Collection.Tally
import TaggedBytecode.Disassembly.Scan
import TaggedBytecode.Json.Basic
import TaggedBytecode.Text.Layout

/-!
# Listings and Histograms

A disassembly is shown as a **listing** with one line for each instruction, and as a document.
Its **histogram** counts the instructions by opcode, the most frequent first.

## Main definitions

* `Disassembly.listing`, `Disassembly.toJson` — the two forms of a disassembly.
* `Disassembly.histogram`, `Histogram.text` — the histogram.
-/

namespace TaggedBytecode

/-- The note of an instruction with an operand that could not be decoded. -/
def decodeErrorNote : String := "<decode error>"

namespace ListedOperand

def text : ListedOperand → String
  | constant c => c.text
  | destination slot => "-> v" ++ toString slot
  | raw value => "?" ++ toString value.toInt

end ListedOperand

namespace Constant

/-- The content of a constant in documents; the kinds with a single constant have none. -/
def content? : Constant → Option Json
  | smallInt n => some (.integer n.toInt)
  | float64 x => some (if x.isFinite then .number (NumeralStyle.json.write x) else .null)
  | bool b => some (.bool b)
  | str s => some (.string s)
  | varRef slot => some (.nat slot)
  | null | undefined => none

/-- The document form of a constant. -/
def toJson (c : Constant) : Json :=
  .object (("type", .string c.kind) :: (c.content?.map fun v => ("value", v)).toList)

end Constant

namespace ListedOperand

/-- The document form of an operand. -/
def toJson : ListedOperand → Json
  | constant c => .object [("kind", .string "const"), ("value", c.toJson)]
  | destination slot => .object [("kind", .string "dest"), ("value", .nat slot)]
  | raw value => .object [("kind", .string "raw"), ("value", .integer value.toInt)]

end ListedOperand

namespace ListedInstruction

def note? (i : ListedInstruction) : Option String :=
  if i.failed then some decodeErrorNote else none

/-- The document form of an instruction. -/
def toJson (i : ListedInstruction) : Json :=
  .object
    ([("address", .nat i.address), ("opcode", .integer i.opcode.toInt),
      ("name", .string i.name), ("operation", .string i.operation),
      ("operands", .array (i.operands.map ListedOperand.toJson))] ++
      (i.note?.map fun note => ("note", Json.string note)).toList)

/-- The line of an instruction: its columns, then the operation, the operands and the note. -/
def line (i : ListedInstruction) : String :=
  let operation := if i.operation.isEmpty then [] else [i.operation]
  let words := operation ++ i.operands.map ListedOperand.text
  Text.alignRight 5 (toString i.address) ++ " | " ++
    Text.alignRight 6 (toString i.opcode.toInt) ++ " | " ++ Text.alignLeft 23 i.name ++
    " | " ++ " ".intercalate words ++ (i.note?.map (" " ++ ·)).getD "" ++ "\n"

end ListedInstruction

/-- The instructions of one opcode. -/
structure HistogramEntry where
  opcode : Int32
  name : String
  count : Nat
  deriving DecidableEq, Repr

/-- Instructions by opcode, the most frequent first. -/
structure Histogram where
  entries : List HistogramEntry

namespace Histogram

/-- The number of instructions of an opcode. -/
def count (h : Histogram) (opcode : Int32) : Nat :=
  match h.entries.find? fun e => e.opcode == opcode with
  | some e => e.count
  | none => 0

end Histogram

/-- A part of a whole as a percentage; of nothing, zero. -/
def percent (part whole : Nat) : Binary64 :=
  if whole = 0 then Binary64.zero false
  else ((Binary64.ofNat part).mul (Binary64.ofNat 100)).div (Binary64.ofNat whole)

namespace Disassembly

/-- The document form of a disassembly. -/
def toJson (d : Disassembly) : Json :=
  .object
    [("totalBytecode", .nat d.total),
      ("instructionsDisassembled", .nat d.instructions.length),
      ("instructions", .array (d.instructions.map ListedInstruction.toJson))]

/-- The listing of a disassembly. -/
def listing (d : Disassembly) : String :=
  "IP    | OPCODE | INSTRUCTION             | OPERATION\n" ++
  "------|--------|-------------------------|------------------------------------------\n" ++
  "".intercalate (d.instructions.map ListedInstruction.line)

/-- The histogram of a disassembly. An opcode is named as in its first instruction. -/
def histogram (d : Disassembly) : Histogram :=
  let tally := Tally.ofList (d.instructions.map (·.opcode))
  ⟨tally.ranking.map fun (opcode, count) =>
    let first := d.instructions.find? fun i => i.opcode == opcode
    { opcode, name := (first.map (·.name)).getD "", count }⟩

end Disassembly

namespace Histogram

/-- The table of a histogram. -/
def text (h : Histogram) : String :=
  let total := h.entries.foldl (fun n e => n + e.count) 0
  let line (e : HistogramEntry) : String :=
    Text.alignRight 6 (toString e.opcode.toInt) ++ " | " ++ Text.alignLeft 23 e.name ++ " | " ++
      Text.alignRight 6 (toString e.count) ++ " | " ++ (percent e.count total).fixed 2 ++ "%\n"
  "Opcode frequency:\n" ++
  "OPCODE | INSTRUCTION             | COUNT  | PERCENTAGE\n" ++
  "-------|-------------------------|--------|------------\n" ++
  "".intercalate (h.entries.map line)

end Histogram

end TaggedBytecode
