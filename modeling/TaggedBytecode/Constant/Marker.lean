/-!
# Markers

A **marker** is a reserved even slot value that announces a constant other than a small
integer or a reference.

## Main definitions

* `Marker` — the six markers.
* `Marker.name`, `Marker.label` — their names in documents and in listings.
-/

namespace TaggedBytecode

/-- The constants that a reserved slot value announces. -/
inductive Marker where
  | true
  | null
  | float
  | false
  | string
  | undefined
  deriving DecidableEq, Repr

namespace Marker

/-- The name of a marker in messages and documents. -/
def name : Marker → String
  | .true => "true"
  | .null => "null"
  | .float => "float"
  | .false => "false"
  | .string => "string"
  | .undefined => "undefined"

/-- The name of a marker in statistics. -/
def label : Marker → String
  | .true => "TRUE"
  | .null => "NULL"
  | .float => "FLOAT"
  | .false => "FALSE"
  | .string => "STRING"
  | .undefined => "UNDEFINED"

end Marker

end TaggedBytecode
