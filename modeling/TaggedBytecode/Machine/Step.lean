import TaggedBytecode.Machine.Table

/-!
# Stepping a Machine

A **machine** fetches the instruction at the current address, runs its handler and settles
what the handler decided. Calls nest: while a callee runs, the instruction that called it is
suspended, and the stack of suspended instructions is part of the **state**. The frames from
the **base** of the innermost call on belong to its callee; exceptions that none of them
catches leave the call and are thrown by the suspended instruction.

One **step** starts one instruction and carries through everything that follows from its end,
up to the next fetch.

## Main definitions

* `Machine`, `MachineState` — the fixed and the changing part of a run.
* `Machine.fetch` — the checks before an instruction starts.
* `Machine.settle` — what the end of an instruction does to the innermost call.
* `Machine.carry` — carries the end of an instruction through the suspended calls.
* `Machine.step` — one step.
-/

namespace TaggedBytecode

/-- The fixed part of a run. -/
structure Machine extends Setup where
  table : HandlerTable
  /-- The budget of instructions. -/
  maxSteps : Option Nat := none

/-- An instruction that was started. -/
structure Instruction extends Site where
  /-- The name of its opcode. -/
  name : String
  /-- The number of live frames when it was fetched. -/
  depth : Nat

namespace Instruction

/-- The report of an instruction. -/
def event (i : Instruction) (outcome : StepOutcome) : TraceEvent :=
  { address := i.address, opcode := i.opcode, name := i.name, outcome, depth := i.depth }

end Instruction

/-- An instruction that waits for its callee. -/
structure Suspension where
  instruction : Instruction
  /-- The number of frames that do not belong to the callee. -/
  base : Nat
  resume : Except Thrown Val → Execution → Progress Flow

/-- The changing part of a run with the instructions that wait for callees, the innermost
first. -/
structure MachineState where
  exec : Execution
  suspended : List Suspension := []

namespace MachineState

/-- The number of frames that do not belong to the innermost call. -/
def base (state : MachineState) : Nat :=
  match state.suspended with
  | [] => 0
  | s :: _ => s.base

end MachineState

/-- How a call, or the whole run, ends. -/
inductive Exit where
  | halted
  | returned (value : Val)
  | threw (thrown : Thrown)

namespace Exit

/-- What the calling instruction gets. -/
def reply : Exit → Except Thrown Val
  | halted => .error .halt
  | returned value => .ok value
  | threw thrown => .error thrown

end Exit

/-- What becomes of the innermost call when an instruction stops running. -/
inductive Turn where
  /-- The call goes on with its next instruction. -/
  | goesOn (exec : Execution)
  /-- A callee runs first. -/
  | waits (suspension : Suspension) (exec : Execution)
  /-- The call is left. -/
  | leaves (exit : Exit) (exec : Execution)
  | aborts (message : String)

/-- What a step leads to. -/
inductive Status where
  | running (state : MachineState)
  | stopped (exec : Execution) (exit : Exit)
  | aborted (message : String)

namespace Machine

/-- The first checks at an address, in order: it lies in the program, the budget is not spent,
and the opcode has a handler. The instruction pointer moves past the opcode before the last of
them. -/
def fetch (m : Machine) (base : Nat) (exec : Execution) :
    Except Fault (Instruction × Handler) × Execution :=
  let address := exec.context.ip
  match m.program[address]? with
  | none => (.error (.outOfBounds address m.program.size), exec)
  | some opcode =>
    if m.maxSteps.any (· ≤ exec.steps) then
      (.error (.stepLimit (m.maxSteps.getD 0)), exec)
    else
      let exec := { exec with context := exec.context.setIp (address + 1) }
      match m.table.get? opcode with
      | none => (.error (.unknownOpcode address opcode), exec)
      | some entry =>
        let instruction : Instruction :=
          { address, opcode, base, name := entry.name, depth := exec.context.depth }
        (.ok (instruction, entry.handler), { exec with steps := exec.steps + 1 })

/-- The outcome that a trace shows for the end of an instruction. -/
def outcome : Except Thrown Flow → StepOutcome
  | .ok .continue => .continued
  | .ok .halt | .error .halt => .halted
  | .ok (.return _) => .returned
  | .error (.exception _) => .threw
  | .error (.fault _) => .faulted

/-- Reports the end of an instruction to the sink. -/
def report (i : Instruction) (reply : Except Thrown Flow) (exec : Execution) : Execution :=
  { exec with sink := exec.sink.map (·.emit (i.event (outcome reply))) }

/-- Releases the frames of a call that is left. Outside of calls nothing is released. -/
def release (base : Nat) (exec : Execution) : Execution :=
  if 0 < base then { exec with context := (exec.context.truncate base).2 } else exec

/-- What the end of an instruction does to the innermost call: it goes on, or it is left. An
exception is first offered to the frames of the call. -/
def settle (i : Instruction) (reply : Except Thrown Flow) (exec : Execution) :
    Option Exit × Execution :=
  match reply with
  | .ok .continue => (none, exec)
  | .ok .halt | .error .halt => (some .halted, exec)
  | .ok (.return value) => (some (.returned value), release i.base exec)
  | .error (.fault fault) => (some (.threw (.fault fault)), exec)
  | .error (.exception value) =>
    match exec.context.raise value i.base with
    | (.ok _, context) => (none, { exec with context })
    | (.error value, context) =>
      (some (.threw (.exception value)), release i.base { exec with context })

/-- What an instruction does to the innermost call when it stops running, for good or until
its callee is done. -/
def turn (i : Instruction) : Progress Flow → Turn
  | .aborted message => .aborts message
  | .suspended base exec resume => .waits ⟨i, base, resume⟩ exec
  | .finished reply exec =>
    match settle i reply (report i reply exec) with
    | (none, exec) => .goesOn exec
    | (some exit, exec) => .leaves exit exec

/-- Carries a turn through the calls around it. A call that is left resumes the instruction
that made it, whose own turn comes next. -/
def carry : Turn → List Suspension → Status
  | .aborts message, _ => .aborted message
  | .waits s exec, stack => .running ⟨exec, s :: stack⟩
  | .goesOn exec, stack => .running ⟨exec, stack⟩
  | .leaves exit exec, [] => .stopped exec exit
  | .leaves exit exec, s :: stack => carry (turn s.instruction (s.resume exit.reply exec)) stack

/-- Starts the next instruction and carries its turn through, up to the next fetch. A fault of
the fetch leaves the innermost call. -/
def step (m : Machine) (state : MachineState) : Status :=
  match m.fetch state.base state.exec with
  | (.error fault, exec) => carry (.leaves (.threw (.fault fault)) exec) state.suspended
  | (.ok (i, handler), exec) =>
    carry (turn i (handler m.toSetup i.toSite exec)) state.suspended

/-- Takes steps while the machine runs, at most `fuel` of them. -/
def iterate (m : Machine) : (fuel : Nat) → MachineState → Status
  | 0, state => .running state
  | fuel + 1, state =>
    match m.step state with
    | .running state => iterate m fuel state
    | status => status

end Machine

end TaggedBytecode
