import TaggedBytecode.Constant.Decoder
import TaggedBytecode.Context.Frame

/-!
# Execution Contexts

A **context** is the stack of live frames of a run. The root frame is never released, so there
always is a current frame, the last one. Every frame but the root links to its parent, and
variables are looked up along those links.

## Main definitions

* `Context.frames` — the view of a context as the list of its frames, root first.
* `Context.resolve`, `Context.assign` — variables through the chain of frames.
* `Context.pushScope`, `Context.pushCall`, `Context.pop`, `Context.truncate` — the stack.
* `Context.write`, `Context.readVar` — operands that name variables.
-/

namespace TaggedBytecode

/-- The live frames of a run. -/
structure Context where
  /-- The frames below the current one, root first. -/
  outer : Array Frame
  current : Frame
  /-- The length of the program; targets must lie below it. -/
  programLength : Nat
  deriving Inhabited

namespace Context

/-- A context with only the root frame, which starts at `entry`. -/
def start (programLength : Nat) (entry : Nat := 0) : Context where
  outer := #[]
  current := { ip := entry, kind := .root, parent := none }
  programLength := programLength

/-- All frames, root first. -/
def frames (ctx : Context) : List Frame :=
  ctx.outer.toList ++ [ctx.current]

/-- The number of live frames. -/
def depth (ctx : Context) : Nat := ctx.outer.size + 1

/-- The index of the current frame. -/
def currentIndex (ctx : Context) : Nat := ctx.outer.size

def frame? (ctx : Context) (index : Nat) : Option Frame :=
  if index = ctx.outer.size then some ctx.current else ctx.outer[index]?

/-- Changes a frame. -/
def modifyFrame (ctx : Context) (index : Nat) (f : Frame → Frame) : Context :=
  if index = ctx.outer.size then { ctx with current := f ctx.current }
  else { ctx with outer := ctx.outer.modify index f }

def ip (ctx : Context) : Nat := ctx.current.ip

/-- Moves the instruction pointer, unchecked. -/
def setIp (ctx : Context) (ip : Nat) : Context :=
  { ctx with current := { ctx.current with ip := ip } }

/-- Refuses an address outside the program. -/
def checkTarget (ctx : Context) (target : Nat) : Except Fault Unit :=
  if target < ctx.programLength then .ok ()
  else .error (.outOfBounds target ctx.programLength)

/-- Moves the instruction pointer to an address of the program. -/
def jump (ctx : Context) (target : Nat) : Except Fault Context :=
  (ctx.checkTarget target).map fun _ => ctx.setIp target

/-! ### Variables -/

/-- The nearest frame that is `wanted`, along the parent links from a frame on. A chain has no
more links than there are frames, which bounds the fuel. -/
def search (ctx : Context) (wanted : Nat → Frame → Bool) : (fuel index : Nat) → Option Nat
  | 0, _ => none
  | fuel + 1, index =>
    match ctx.frame? index with
    | none => none
    | some f =>
      if wanted index f then some index
      else
        match f.parent with
        | none => none
        | some parent => search ctx wanted fuel parent

/-- The nearest frame, from the current one on, that is `wanted`. -/
def nearest (ctx : Context) (wanted : Nat → Frame → Bool) : Option Nat :=
  ctx.search wanted ctx.depth ctx.currentIndex

/-- The innermost frame that binds a slot. -/
def binder (ctx : Context) (slot : Nat) : Option Nat :=
  ctx.nearest fun _ f => f.locals.binds slot

/-- The value of a variable. -/
def resolve (ctx : Context) (slot : Nat) : Option Val := do
  let index ← ctx.binder slot
  let f ← ctx.frame? index
  f.locals.get? slot

/-- Binds a slot in the current frame. -/
def store (ctx : Context) (slot : Nat) (value : Val) : Context :=
  { ctx with current := ctx.current.store slot value }

/-- Binds consecutive slots from `slot` on in the current frame. -/
def storeAll (ctx : Context) (slot : Nat) : List Val → Context
  | [] => ctx
  | v :: rest => storeAll (ctx.store slot v) (slot + 1) rest

/-- Assigns a variable: in the innermost frame that binds it, else in the current one. -/
def assign (ctx : Context) (slot : Nat) (value : Val) : Context :=
  match ctx.binder slot with
  | some index => ctx.modifyFrame index (·.store slot value)
  | none => ctx.store slot value

/-- Reads a destination slot at the instruction pointer and binds it in the current frame. -/
def write (ctx : Context) (program : Program) (value : Val) : Except Fault (Nat × Context) := do
  let (slot, after) ← Decoder.slot program ctx.ip
  return (slot, (ctx.setIp after).store slot value)

/-- Reads a slot at the instruction pointer and the variable it names. A variable that no
frame binds is an exception, raised after the slot was read. -/
def readVar (ctx : Context) (program : Program) : Except Thrown Val × Context :=
  match Decoder.slot program ctx.ip with
  | .error fault => (.error (.fault fault), ctx)
  | .ok (slot, after) =>
    let ctx := ctx.setIp after
    match ctx.resolve slot with
    | some value => (.ok value, ctx)
    | none => (.error (.unbound slot), ctx)

/-! ### The stack -/

/-- Makes a frame current above the present one. -/
def push (ctx : Context) (frame : Frame) : Context :=
  { ctx with outer := ctx.outer.push ctx.current, current := frame }

/-- Enters a scope that continues at the instruction pointer and catches at `handler`. -/
def pushScope (ctx : Context) (handler : Option Nat) : Except Fault Context :=
  let scope : Frame :=
    { ip := ctx.ip, kind := .scope, parent := some ctx.currentIndex, handler }
  match handler with
  | some target => (ctx.checkTarget target).map fun _ => ctx.push scope
  | none => .ok (ctx.push scope)

/-- Enters a call that starts at `entry`. -/
def pushCall (ctx : Context) (entry : Nat) : Except Fault Context :=
  (ctx.checkTarget entry).map fun _ =>
    ctx.push { ip := entry, kind := .call, parent := some ctx.currentIndex }

/-- Releases the current frame, unless it is the root. A scope hands on its instruction
pointer. -/
def pop (ctx : Context) : Option (Frame × Context) :=
  match ctx.outer.back? with
  | none => none
  | some below =>
    let released := ctx.current
    let ip := if released.kind = .scope then released.ip else below.ip
    some (released, { ctx with outer := ctx.outer.pop, current := { below with ip := ip } })

/-- Releases the frames above a depth, the innermost last in the list of released frames. The
root frame stays. -/
def truncate (ctx : Context) (depth : Nat) : List Frame × Context :=
  if h : max depth 1 < ctx.depth then
    have : max depth 1 - 1 < ctx.outer.size := by unfold Context.depth at h; omega
    ((ctx.outer.extract (max depth 1) ctx.outer.size).toList ++ [ctx.current],
      { ctx with
        outer := ctx.outer.extract 0 (max depth 1 - 1)
        current := ctx.outer[max depth 1 - 1] })
  else ([], ctx)

/-! ### Exception state -/

/-- Arms the current frame. -/
def setHandler (ctx : Context) (target : Nat) : Except Fault Context :=
  (ctx.checkTarget target).map fun _ =>
    { ctx with current := { ctx.current with handler := some target } }

/-- Disarms the current frame. -/
def clearHandler (ctx : Context) : Context :=
  { ctx with current := { ctx.current with handler := none } }

/-- The exception delivered to the current frame. -/
def pending (ctx : Context) : Option Val := ctx.current.pending

/-- Forgets the exception delivered to the current frame. -/
def clearPending (ctx : Context) : Context :=
  { ctx with current := { ctx.current with pending := none } }

end Context

end TaggedBytecode
