import TaggedBytecode.Disassembly.Listing
import TaggedBytecode.Program.Stats

/-!
# Value Statistics

The **value statistics** of a program look at its raw slots, whatever the instructions are.
They rank the most frequent values and sort all slots into three groups: small integers, likely
opcodes and everything else.

## Main definitions

* `ValueStats` — the statistics; `ValueStats.of` — those of a program.
* `ValueStats.ofTally` — those of slots whose values are counted already.
* `ValueStats.text`, `ValueStats.toJson` — their forms.
-/

namespace TaggedBytecode

/-- A value with how often it occurs. -/
structure ValueCount where
  value : Int32
  count : Nat
  /-- The opcode or the marker that the value is. -/
  label : Option String
  deriving DecidableEq, Repr

/-- The statistics of the slots of a program. -/
structure ValueStats where
  length : Nat
  unique : Nat
  min : Option Int32
  max : Option Int32
  /-- The most frequent values. -/
  top : List ValueCount
  smallInts : Nat
  likelyOpcodes : Nat
  other : Nat
  deriving DecidableEq, Repr

/-- The groups of slots. -/
inductive SlotGroup where
  /-- Odd slots. -/
  | smallInt
  /-- Even slots from 0 to 99. -/
  | likelyOpcode
  | other
  deriving DecidableEq, Repr

/-- The group of a slot. -/
def slotGroup (raw : Int32) : SlotGroup :=
  if isOdd raw then .smallInt
  else if 0 ≤ raw ∧ raw < 100 then .likelyOpcode
  else .other

namespace ValueStats

/-- The name of the opcode, or else of the marker, that a slot value is. -/
def label? (opcodes : OpcodeMap) (markers : Markers) (value : Int32) : Option String :=
  match opcodes.get? value with
  | some info => some info.name
  | none => (markers.marker? value).map Marker.label

/-- A value that was counted, with its label. -/
def labelled (opcodes : OpcodeMap) (markers : Markers) (entry : Int32 × Nat) : ValueCount :=
  { value := entry.1, count := entry.2, label := label? opcodes markers entry.1 }

/-- The statistics of slots whose values are counted in a tally, with the `top` most frequent
values. -/
def ofTally (tally : Tally Int32) (slots : List Int32) (top : Nat) (opcodes : OpcodeMap)
    (markers : Markers) : ValueStats :=
  { length := slots.length
    unique := tally.counts.length
    min := slots.min?
    max := slots.max?
    top := (tally.ranking.take top).map (labelled opcodes markers)
    smallInts := slots.countP fun v => slotGroup v = .smallInt
    likelyOpcodes := slots.countP fun v => slotGroup v = .likelyOpcode
    other := slots.countP fun v => slotGroup v = .other }

/-- The statistics of a program, with the `top` most frequent values. -/
def of (program : Program) (top : Nat) (opcodes : OpcodeMap) (markers : Markers) :
    ValueStats :=
  ofTally (Tally.ofList program.toList) program.toList top opcodes markers

/-- The document form of the statistics. -/
def toJson (s : ValueStats) : Json :=
  .object
    [("length", .nat s.length), ("unique", .nat s.unique),
      ("min", .option (fun v => .integer v.toInt) s.min),
      ("max", .option (fun v => .integer v.toInt) s.max),
      ("top", .array (s.top.map fun e =>
        .object ([("value", .integer e.value.toInt), ("count", .nat e.count)] ++
          (e.label.map fun label => ("label", Json.string label)).toList))),
      ("smallInts", .nat s.smallInts), ("likelyOpcodes", .nat s.likelyOpcodes),
      ("other", .nat s.other)]

/-- The report of the statistics. -/
def text (s : ValueStats) : String :=
  let line (e : ValueCount) : String :=
    Text.alignRight 6 (toString e.value.toInt) ++ "  | " ++
      Text.alignRight 6 (toString e.count) ++ "  | " ++ (percent e.count s.length).fixed 2 ++
      "%" ++ (e.label.map ("  " ++ ·)).getD "" ++ "\n"
  let group (title : String) (count : Nat) : String :=
    title ++ toString count ++ " (" ++ (percent count s.length).fixed 1 ++ "%)\n"
  "Top " ++ toString s.top.length ++ " most frequent bytecode values:\n" ++
  "VALUE   | COUNT  | PERCENTAGE\n" ++
  "--------|--------|------------\n" ++
  "".intercalate (s.top.map line) ++ "\n" ++
  group "Small integers (odd values): " s.smallInts ++
  group "Likely opcodes (0-99):       " s.likelyOpcodes ++
  group "Other values (refs/data):    " s.other

end ValueStats

end TaggedBytecode
