import TaggedBytecode.Machine.Step

/-!
# Runs

A **run** takes a machine from its first fetch to its end. It **halts** when the program says
so or returns at the root, and it **faults** on a fault or on an exception that nothing caught.
A run that has ended stays as it is.

A budget of instructions bounds a run by itself: a step starts an instruction or leaves a
call, and no more calls can be left than instructions made them. A run without a budget is
followed for `2 ^ 64` steps, more than any clock lets pass.

## Main definitions

* `RunState`, `Run` — how far a run has come.
* `Run.finish` — follows a run to its end.
* `Run.outcome` — what a run reports.
-/

namespace TaggedBytecode

/-- How far a run has come. -/
inductive RunState where
  | running
  | halted
  | faulted (fault : Fault)
  /-- Machine arithmetic failed. -/
  | aborted (message : String)

/-- One run of a machine. -/
structure Run where
  exec : Execution
  state : RunState := .running

/-- What a run reports. -/
structure Outcome where
  state : RunState
  result : Option Val
  steps : Nat

namespace Machine

/-- The run of a machine before its first fetch. -/
def start (m : Machine) (world : World := {}) (sink : Option Sink := none) : Run where
  exec := { context := Context.start m.program.size, world, sink }

/-- How many steps a run is followed for. With the budget spent, a step can still end a call
whose caller goes on, once for every call, and one more step ends the run. -/
def fuel (m : Machine) : Nat :=
  match m.maxSteps with
  | some limit => 2 * limit + 1
  | none => 0x10000000000000000

end Machine

namespace Run

/-- The run that a status stands for; `before` is the run that led to it. -/
def ofStatus (before : Run) : Status → Run
  | .running state => { exec := state.exec }
  | .stopped exec .halted => { exec, state := .halted }
  | .stopped exec (.returned value) =>
    { exec := { exec with result := some value }, state := .halted }
  | .stopped exec (.threw .halt) => { exec, state := .halted }
  | .stopped exec (.threw (.exception value)) =>
    { exec, state := .faulted (.unhandled value) }
  | .stopped exec (.threw (.fault fault)) => { exec, state := .faulted fault }
  | .aborted message => { before with state := .aborted message }

/-- Follows a run to its end. -/
def finish (m : Machine) (run : Run) : Run :=
  match run.state with
  | .running => run.ofStatus (m.iterate m.fuel { exec := run.exec })
  | _ => run

/-- What a run reports. -/
def outcome (run : Run) : Outcome where
  state := run.state
  result := run.exec.result
  steps := run.exec.steps

end Run

namespace Outcome

/-- The fault of an outcome. -/
def fault? (outcome : Outcome) : Option Fault :=
  match outcome.state with
  | .faulted fault => some fault
  | _ => none

/-- The value of a run: its fault, or its result, or undefined if it has none. -/
def value (outcome : Outcome) : Except Fault Val :=
  match outcome.fault? with
  | some fault => .error fault
  | none => .ok (outcome.result.getD .undefined)

end Outcome

end TaggedBytecode
