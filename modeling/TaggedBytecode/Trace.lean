import TaggedBytecode.Collection.Tally
import TaggedBytecode.Json.Basic

/-!
# Traces

A **trace event** reports one finished instruction. A **recorder** counts every event and keeps
the first ones, up to a limit.

## Main definitions

* `StepOutcome` — what an instruction did.
* `TraceEvent` — the report of an instruction.
* `TraceRecorder` — counts and keeps events.
* `Sink` — where the events of a run go.
-/

namespace TaggedBytecode

/-- What an instruction did. -/
inductive StepOutcome where
  | continued
  | halted
  | returned
  /-- It threw an exception, caught or not. -/
  | threw
  | faulted
  deriving DecidableEq, Repr

namespace StepOutcome

def name : StepOutcome → String
  | continued => "continue"
  | halted => "halt"
  | returned => "return"
  | threw => "exception"
  | faulted => "fault"

end StepOutcome

/-- The report of one instruction. -/
structure TraceEvent where
  address : Nat
  opcode : Int32
  name : String
  outcome : StepOutcome
  /-- The number of live frames when the instruction was fetched. -/
  depth : Nat
  deriving DecidableEq, Repr

namespace TraceEvent

/-- The document form of an event. -/
def toJson (event : TraceEvent) : Json :=
  .object
    [("ip", .nat event.address), ("opcode", .integer event.opcode.toInt),
      ("name", .string event.name), ("outcome", .string event.outcome.name),
      ("depth", .nat event.depth)]

end TraceEvent

/-- Counts all events of a run and keeps the first of them. -/
structure TraceRecorder where
  /-- How many events are kept. -/
  limit : Nat
  /-- How many events there were. -/
  total : Nat := 0
  entries : Array TraceEvent := #[]
  /-- Events by opcode. -/
  frequencies : Tally Int32 := .empty

namespace TraceRecorder

/-- Takes note of an event. -/
def record (r : TraceRecorder) (event : TraceEvent) : TraceRecorder :=
  { r with
    total := r.total + 1
    entries := if r.entries.size < r.limit then r.entries.push event else r.entries
    frequencies := r.frequencies.add event.opcode }

/-- The document form of a recording. -/
def toJson (r : TraceRecorder) : Json :=
  .object
    [("totalOperations", .nat r.total),
      ("trace", .array (r.entries.toList.map TraceEvent.toJson))]

end TraceRecorder

/-- Where the events of a run go. -/
inductive Sink where
  | recorder (recorder : TraceRecorder)
  /-- Keeps every event. -/
  | listener (heard : Array TraceEvent)

namespace Sink

/-- Sends an event. -/
def emit (event : TraceEvent) : Sink → Sink
  | recorder r => recorder (r.record event)
  | listener heard => listener (heard.push event)

end Sink

end TaggedBytecode
