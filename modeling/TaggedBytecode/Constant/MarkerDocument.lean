import TaggedBytecode.Constant.Markers
import TaggedBytecode.Document.Shape

/-!
# Marker Tables in Documents

In documents a marker table is a record from marker names to slot values. Markers that are
left out have their reference values, and the marker for undefined is written only if it is in
use.

## Main definitions

* `Markers.shape`, `Markers.toJson` — reading and writing a table.
-/

namespace TaggedBytecode.Markers

/-- A marker table. -/
def shape : Shape Markers := fun d => do
  let [trueTag, nullTag, floatTag, falseTag, stringTag, undefinedTag] ←
    Shape.record ["true", "null", "float", "false", "string", "undefined"] 0 d | none
  let usual : Markers := {}
  return {
    trueTag := ← Shape.withDefault usual.trueTag Shape.int32 trueTag
    nullTag := ← Shape.withDefault usual.nullTag Shape.int32 nullTag
    floatTag := ← Shape.withDefault usual.floatTag Shape.int32 floatTag
    falseTag := ← Shape.withDefault usual.falseTag Shape.int32 falseTag
    stringTag := ← Shape.withDefault usual.stringTag Shape.int32 stringTag
    undefinedTag := ← Shape.withDefault none (Shape.optional Shape.int32) undefinedTag }

/-- The document form of a table. -/
def toJson (markers : Markers) : Json :=
  .object (markers.assigned.map fun (marker, value) => (marker.name, .integer value.toInt))

end TaggedBytecode.Markers
