import TaggedBytecode.Config.Basic
import TaggedBytecode.Constant.MarkerDocument
import TaggedBytecode.Failure
import TaggedBytecode.Toml.Reader

/-!
# Configuration Documents

A configuration is written in TOML, as a record in which everything has a default.

## Main definitions

* `Config.shape` — reads a configuration out of a document.
* `Config.ofText` — the valid configuration in a text.
-/

namespace TaggedBytecode

/-- A character mode: its name, or a mapping from its name to nothing. -/
def CharMode.shape : Shape CharMode
  | .text name => ofName? name
  | .mapping [(.text name, .mapping [])] | .mapping [(.text name, .sequence _ [])] => ofName? name
  | _ => none

namespace Config

/-- A configuration. -/
def shape : Shape Config := fun d => do
  let [digits, base, markers, chars, stringPool, maxSteps, maxCallDepth, traceLimit] ←
    Shape.record
      ["alphabet", "base", "tags", "chars", "string_pool", "max_steps", "max_call_depth",
        "trace_limit"] 0 d | none
  let usual : Config := {}
  return {
    digits := ← Shape.withDefault usual.digits Shape.string digits
    base := ← Shape.withDefault usual.base Shape.nat base
    markers := ← Shape.withDefault usual.markers Markers.shape markers
    chars := ← Shape.withDefault usual.chars CharMode.shape chars
    stringPool := ← Shape.withDefault usual.stringPool Shape.bool stringPool
    maxSteps := ← Shape.withDefault usual.maxSteps (Shape.optional Shape.nat) maxSteps
    maxCallDepth := ← Shape.withDefault usual.maxCallDepth Shape.nat maxCallDepth
    traceLimit := ← Shape.withDefault usual.traceLimit Shape.nat traceLimit }

/-- The configuration in a TOML text, if it is valid. -/
def ofText (text : String) : Except Failure Config :=
  match (Toml.ofText? text).bind shape with
  | none => .error (Failure.note "Failed to parse VM config" (.ofDocument .toml))
  | some config => do
    faulting config.validate
    return config

end Config

end TaggedBytecode
