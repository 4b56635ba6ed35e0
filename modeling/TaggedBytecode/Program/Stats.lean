import TaggedBytecode.Collection.Assoc
import TaggedBytecode.Constant.Decoder
import TaggedBytecode.Json.Basic

/-!
# Program Statistics

A **summary** of the raw slot values of a program: how many there are, how many are distinct,
and the least and the greatest.

## Main definitions

* `distinctSlots` — the values of some slots in ascending order, each once.
* `ProgramStats` — the summary; `ProgramStats.of` — the summary of a program.
-/

namespace TaggedBytecode

/-- A summary of the slots of a program. -/
structure ProgramStats where
  length : Nat
  unique : Nat
  min : Option Int32
  max : Option Int32
  deriving DecidableEq, Repr

/-- The values of some slots in ascending order, each once: the keys of a map to nothing. -/
def distinctSlots (slots : List Int32) : List Int32 :=
  (Assoc.ofList (slots.map fun v => (v, ()))).map (·.1)

namespace ProgramStats

/-- The summary of a program. -/
def of (program : Program) : ProgramStats :=
  let values := distinctSlots program.toList
  { length := program.size
    unique := values.length
    min := values.head?
    max := values.getLast? }

/-- The document form of a summary. -/
def toJson (s : ProgramStats) : Json :=
  .object
    [("length", .nat s.length), ("unique", .nat s.unique),
      ("min", .option (fun v => .integer v.toInt) s.min),
      ("max", .option (fun v => .integer v.toInt) s.max)]

end ProgramStats

end TaggedBytecode
