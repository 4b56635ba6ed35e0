import TaggedBytecode.Context.Basic

/-!
# Raising Exceptions

An exception goes to the **nearest armed frame**. The frames above it are released, the
exception becomes pending there, and execution resumes at the frame's handler address. The
frame stays armed until the code that catches disarms it. Frames below a **floor** are not
asked, as they belong to an outer caller.

## Main definitions

* `Recovered` — where an exception was caught.
* `Context.raise` — delivers an exception.
-/

namespace TaggedBytecode

/-- How an exception was caught. -/
structure Recovered where
  /-- The frame that caught it. -/
  frame : Nat
  /-- The address at which execution resumes. -/
  target : Nat
  /-- The frames that were released, the innermost last. -/
  released : List Frame

namespace Context

/-- The nearest armed frame at or above the floor. -/
def catcher (ctx : Context) (floor : Nat) : Option Nat :=
  ctx.nearest fun index f => decide (floor ≤ index) && f.isArmed

/-- Delivers an exception to the nearest armed frame at or above the floor, or gives it back
with the context unchanged. -/
def raise (ctx : Context) (exception : Val) (floor : Nat) :
    Except Val Recovered × Context :=
  match ctx.catcher floor with
  | none => (.error exception, ctx)
  | some index =>
    let (released, unwound) := ctx.truncate (index + 1)
    match unwound.current.handler with
    | none => (.error exception, ctx)
    | some target =>
      (.ok ⟨index, target, released⟩,
        { unwound with
          current := { unwound.current with pending := some exception, ip := target } })

end Context

end TaggedBytecode
