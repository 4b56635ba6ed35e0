import TaggedBytecode.Context.Raise
import TaggedBytecode.Host.Basic
import TaggedBytecode.Trace

/-!
# Executions and Handlers

An **execution** is the changing part of a run. A **handler** implements an opcode: it reads
operands, acts on the execution and decides how to go on. A handler that calls back into
bytecode cannot finish by itself. It is **suspended** until the callee is done and then resumed
with its reply, so a handler is a computation that makes **progress** in one of three ways: it
finishes, it is suspended, or the run is aborted under it.

## Main definitions

* `Execution` — the changing part of a run; `Setup` — the fixed part that handlers may read.
* `Progress` — how far a computation got.
* `HandlerM` — the computations that handlers are made of.
* `HandlerM.call` — runs a stretch of bytecode as a callee.
-/

namespace TaggedBytecode

/-- The fixed part of a run, as far as handlers may read it. -/
structure Setup where
  program : Program
  decoder : Decoder := {}
  host : Host := {}
  /-- The greatest number of calls that may be open at a time. -/
  maxCallDepth : Nat := 128

/-- The changing part of a run. -/
structure Execution where
  context : Context
  world : World := {}
  sink : Option Sink := none
  /-- The number of instructions started. -/
  steps : Nat := 0
  /-- The value that the run reports. -/
  result : Option Val := none
  /-- The number of open calls. -/
  calls : Nat := 0

/-- Where an instruction runs. -/
structure Site where
  address : Nat
  opcode : Int32
  /-- The number of frames that belong to outer calls. -/
  base : Nat

/-- How execution goes on after an instruction. -/
inductive Flow where
  | continue
  /-- End the whole run. -/
  | halt
  /-- Leave the current call with a value; outside of calls, end the run with it. -/
  | return (value : Val)

/-- How far a computation got. -/
inductive Progress (α : Type) where
  | finished (reply : Except Thrown α) (exec : Execution)
  /-- A callee has to run first, on the frames above `base`. -/
  | suspended (base : Nat) (exec : Execution)
      (resume : Except Thrown Val → Execution → Progress α)
  /-- Machine arithmetic failed in a way that no program can handle. -/
  | aborted (message : String)

namespace Progress

/-- Goes on with the result of a computation, once it has one. -/
def bind {α β : Type} (p : Progress α) (next : α → Execution → Progress β) : Progress β :=
  match p with
  | finished (.ok a) exec => next a exec
  | finished (.error thrown) exec => finished (.error thrown) exec
  | suspended base exec resume =>
    suspended base exec fun reply exec => (resume reply exec).bind next
  | aborted message => aborted message

/-- Turns whatever a computation throws into a result. -/
def attempt {α : Type} : Progress α → Progress (Except Thrown α)
  | finished reply exec => finished (.ok reply) exec
  | suspended base exec resume =>
    suspended base exec fun reply exec => (resume reply exec).attempt
  | aborted message => aborted message

end Progress

/-- The computations that handlers are made of. -/
def HandlerM (α : Type) : Type := Setup → Site → Execution → Progress α

namespace HandlerM

instance : Monad HandlerM where
  pure a := fun _ _ exec => .finished (.ok a) exec
  bind m f := fun setup site exec =>
    (m setup site exec).bind fun a exec => f a setup site exec

/-- Fails. -/
def throw {α : Type} (thrown : Thrown) : HandlerM α :=
  fun _ _ exec => .finished (.error thrown) exec

/-- Ends the run in disorder. -/
def abort {α : Type} (message : String) : HandlerM α :=
  fun _ _ _ => .aborted message

/-- Runs a computation and gives what it threw as a result. -/
def attempt {α : Type} (m : HandlerM α) : HandlerM (Except Thrown α) :=
  fun setup site exec => (m setup site exec).attempt

/-- The fixed part of the run. -/
def setup : HandlerM Setup :=
  fun setup _ exec => .finished (.ok setup) exec

/-- The place of the instruction. -/
def site : HandlerM Site :=
  fun _ site exec => .finished (.ok site) exec

/-- The present context. -/
def context : HandlerM Context :=
  fun _ _ exec => .finished (.ok exec.context) exec

/-- Acts on the context; a fault leaves it as it was. -/
def onContext {α : Type} (f : Setup → Context → Except Fault (α × Context)) : HandlerM α :=
  fun setup _ exec =>
    match f setup exec.context with
    | .ok (a, context) => .finished (.ok a) { exec with context }
    | .error fault => .finished (.error (.fault fault)) exec

/-- Changes the context. -/
def modifyContext (f : Context → Context) : HandlerM Unit :=
  onContext fun _ context => .ok ((), f context)

/-! ### Operands -/

/-- Reads the next constant. -/
def constant : HandlerM Constant :=
  onContext fun setup context => do
    let (c, after) ← setup.decoder.constant setup.program context.ip
    return (c, context.setIp after)

/-- The value of a variable, or the exception that it is unbound. -/
def lookUp (slot : Nat) : HandlerM Val :=
  fun _ _ exec =>
    match exec.context.resolve slot with
    | some value => .finished (.ok value) exec
    | none => .finished (.error (.unbound slot)) exec

/-- Reads the next constant and takes the value of the variable if it is a reference. -/
def operand : HandlerM Val := do
  match ← constant with
  | .varRef slot => lookUp slot
  | literal => return literal.toVal?.getD .undefined

/-- Reads some operands. -/
def operands : Nat → HandlerM (List Val)
  | 0 => return []
  | n + 1 => do
    let v ← operand
    let rest ← operands n
    return v :: rest

/-- Reads the destination slot and binds it in the current frame. -/
def write (value : Val) : HandlerM Unit :=
  onContext fun setup context =>
    (context.write setup.program value).map fun (_, context) => ((), context)

/-- Reads a slot and the variable it names. -/
def readVar : HandlerM Val :=
  fun setup _ exec =>
    let (reply, context) := exec.context.readVar setup.program
    .finished reply { exec with context }

/-- Reads a constant that must be an address: a small integer that is not negative. -/
def target : HandlerM Nat := do
  let at_ := (← context).ip
  match ← constant with
  | .smallInt n =>
    if n < 0 then throw (.fault (.constant at_ (.notAddress (.smallInt n))))
    else return n.toNatClampNeg
  | other => throw (.fault (.constant at_ (.notAddress other)))

/-- Reads a constant that must name a variable. -/
def binding : HandlerM Nat := do
  let at_ := (← context).ip
  match ← constant with
  | .varRef slot => return slot
  | other => throw (.fault (.constant at_ (.notVariable other)))

/-! ### Frames -/

/-- Continues at an address of the program. -/
def jump (target : Nat) : HandlerM Unit :=
  onContext fun _ context => (context.jump target).map fun context => ((), context)

/-- Assigns a variable in the frame that binds it. -/
def assign (slot : Nat) (value : Val) : HandlerM Unit :=
  modifyContext fun context => context.assign slot value

/-- Enters a scope. -/
def pushScope (handler : Option Nat) : HandlerM Unit :=
  onContext fun _ context => (context.pushScope handler).map fun context => ((), context)

/-- Leaves the current scope. Frames of outer calls, and the frame of the call itself, stay. -/
def popScope : HandlerM Unit :=
  fun _ site exec =>
    if exec.context.depth ≤ site.base + 1 then .finished (.ok ()) exec
    else
      match exec.context.pop with
      | some (_, context) => .finished (.ok ()) { exec with context }
      | none => .finished (.ok ()) exec

/-- Arms the current frame. -/
def setHandler (target : Nat) : HandlerM Unit :=
  onContext fun _ context => (context.setHandler target).map fun context => ((), context)

/-- Disarms the current frame and gives the target it had. -/
def clearHandler : HandlerM (Option Nat) :=
  onContext fun _ context => .ok (context.current.handler, context.clearHandler)

/-- The exception delivered to the current frame. -/
def pending : HandlerM (Option Val) := do
  return (← context).pending

/-- Takes the exception delivered to the current frame. -/
def takePending : HandlerM (Option Val) :=
  onContext fun _ context => .ok (context.pending, context.clearPending)

/-! ### The rest of the execution -/

/-- The identity for a new container. -/
def newIdentity : HandlerM Nat :=
  fun _ _ exec =>
    let (identity, world) := exec.world.allocate
    .finished (.ok identity) { exec with world }

/-- Sets the value that the run reports. -/
def setResult (value : Val) : HandlerM Unit :=
  fun _ _ exec => .finished (.ok ()) { exec with result := some value }

/-- Sends an event to the sink of the run. -/
def emit (event : TraceEvent) : HandlerM Unit :=
  fun _ _ exec => .finished (.ok ()) { exec with sink := exec.sink.map (·.emit event) }

/-- Calls a capability of the host. Its failures are exceptions. -/
def callHost (name : String) (args : List Val) : HandlerM Val :=
  fun setup _ exec =>
    let (reply, world) := (setup.host.call name args).run.run exec.world
    let exec := { exec with world }
    match reply with
    | .ok value => .finished (.ok value) exec
    | .error failure => .finished (.error (.error failure.message)) exec

/-- Runs the bytecode at `entry` as a callee, with the arguments in its first slots, and gives
the value it returns. One call too many is an exception; what the callee throws is thrown
here. -/
def call (entry : Nat) (args : List Val) : HandlerM Val :=
  fun setup _ exec =>
    if setup.maxCallDepth ≤ exec.calls then
      .finished (.error (.error ("RangeError: maximum call depth of " ++
        toString setup.maxCallDepth ++ " exceeded"))) exec
    else
      match exec.context.pushCall entry with
      | .error fault => .finished (.error (.fault fault)) exec
      | .ok context =>
        .suspended exec.context.depth
          { exec with context := context.storeAll 0 args, calls := exec.calls + 1 }
          fun reply exec => .finished reply { exec with calls := exec.calls - 1 }

end HandlerM

/-- The implementation of an opcode. -/
abbrev Handler := HandlerM Flow

end TaggedBytecode
