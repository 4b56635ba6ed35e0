import TaggedBytecode.Document.Shape
import TaggedBytecode.Failure
import TaggedBytecode.Json.Reader
import TaggedBytecode.Program.Stats

/-!
# Program Dumps

A **dump** is a program in a JSON document, as a list of its slots with a summary beside it.
The summary may be left out, and nothing is done with it but to warn when its length is not
the program's.

## Main definitions

* `ProgramDump` — a dump; `ProgramDump.of` — the dump of a program.
* `ProgramDump.ofText`, `ProgramDump.toJson` — reading and writing dumps.
* `ProgramDump.warnings` — what is strange about a dump.
-/

namespace TaggedBytecode

/-- A summary. Its bounds may be null, and in a mapping they may be left out. -/
def ProgramStats.shape : Shape ProgramStats := fun d => do
  let [length, unique, min, max] ← Shape.record ["length", "unique", "min", "max"] 4 d | none
  let bound := Shape.withDefault none (Shape.optional Shape.int32)
  return {
    length := ← Shape.required Shape.nat length
    unique := ← Shape.required Shape.nat unique
    min := ← bound min
    max := ← bound max }

/-- A program as a document. -/
structure ProgramDump where
  program : Program
  stats : Option ProgramStats := none
  deriving DecidableEq

namespace ProgramDump

/-- The dump of a program, with its summary. -/
def of (program : Program) : ProgramDump where
  program
  stats := some (ProgramStats.of program)

/-- A dump. -/
def shape : Shape ProgramDump := fun d => do
  let [slots, stats] ← Shape.record ["bytecode", "stats"] 1 d | none
  return {
    program := (← Shape.required (Shape.listOf Shape.int32) slots).toArray
    stats := ← Shape.withDefault none (Shape.optional ProgramStats.shape) stats }

/-- The dump in a JSON text. -/
def ofText (text : String) : Except Failure ProgramDump :=
  match ((Json.ofText? text).map Json.document).bind shape with
  | none => .error (Failure.note "Failed to parse bytecode artifact" (.ofDocument .json))
  | some dump => .ok dump

/-- The document form of a dump. -/
def toJson (dump : ProgramDump) : Json :=
  .object
    (("bytecode", .array (dump.program.toList.map fun v => .integer v.toInt)) ::
      (dump.stats.map fun stats => ("stats", stats.toJson)).toList)

/-- Whether the summary gives another length than the program has. -/
def disagrees (dump : ProgramDump) : Bool :=
  dump.stats.any fun stats => stats.length != dump.program.size

/-- What is strange about a dump. -/
def warnings (dump : ProgramDump) : List String :=
  if dump.disagrees then ["bytecode artifact stats disagree with payload"] else []

end ProgramDump

end TaggedBytecode
