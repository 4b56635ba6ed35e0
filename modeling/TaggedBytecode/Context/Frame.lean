import TaggedBytecode.Val.Basic

/-!
# Frames

A **frame** is one level of execution: where it continues, the variables it binds, the address
at which it catches exceptions, and the exception it caught. A frame is the root, a **scope**
inside the same stretch of code, or a **call**.

Variables live in numbered slots. A frame has as many slots as its greatest bound one needs,
and the slots in between are empty.

## Main definitions

* `Locals`, `Locals.get?`, `Locals.store` — the variables of a frame.
* `Frame` — a frame.
-/

namespace TaggedBytecode

/-- The variables of a frame. -/
structure Locals where
  /-- Number of slots. -/
  size : Nat := 0
  /-- The bound slots in ascending order. -/
  bound : List (Nat × Val) := []
  deriving Inhabited

namespace Locals

/-- The value bound to a slot. -/
def get? (l : Locals) (slot : Nat) : Option Val :=
  Assoc.get? slot l.bound

/-- Whether a slot is bound. -/
def binds (l : Locals) (slot : Nat) : Bool :=
  (l.get? slot).isSome

/-- Binds a slot, adding empty slots below it as needed. -/
def store (l : Locals) (slot : Nat) (value : Val) : Locals :=
  ⟨max l.size (slot + 1), Assoc.insert slot value l.bound⟩

theorem get?_store (l : Locals) (i j : Nat) (v : Val) :
    (l.store i v).get? j = if j = i then some v else l.get? j :=
  Assoc.get?_insert j i v l.bound

end Locals

/-- How a frame was entered. -/
inductive FrameKind where
  | root
  /-- Part of the code around it: on leaving, its instruction pointer goes to its parent. -/
  | scope
  /-- A call: on leaving, the caller resumes where it was. -/
  | call
  deriving DecidableEq, Inhabited, Repr

namespace FrameKind

def name : FrameKind → String
  | root => "root"
  | scope => "scope"
  | call => "call"

end FrameKind

/-- One level of execution. -/
structure Frame where
  /-- The address of the next slot to read. -/
  ip : Nat
  kind : FrameKind
  /-- The index of the frame below. -/
  parent : Option Nat
  /-- Where execution resumes after an exception; the frame is **armed** if it is set. -/
  handler : Option Nat := none
  /-- The exception that was delivered to the frame. -/
  pending : Option Val := none
  locals : Locals := {}
  deriving Inhabited

namespace Frame

/-- Whether a frame catches exceptions. -/
def isArmed (f : Frame) : Bool := f.handler.isSome

/-- Binds a slot. -/
def store (f : Frame) (slot : Nat) (value : Val) : Frame :=
  { f with locals := f.locals.store slot value }

end Frame

end TaggedBytecode
