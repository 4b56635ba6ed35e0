import TaggedBytecode.Fault

/-!
# Marker Tables

A **marker table** assigns a slot value to each marker; the marker for undefined is optional.
A table is **valid** when its values are even, as odd slots are small integers, and distinct.

## Main definitions

* `Markers` — the table, with the reference values as defaults.
* `Markers.validate` — the first thing that is wrong with a table.
* `Markers.marker?` — the marker of a slot value.
-/

namespace TaggedBytecode

/-- The slot values of the markers. -/
structure Markers where
  trueTag : Int32 := 22
  nullTag : Int32 := 36
  floatTag : Int32 := 46
  falseTag : Int32 := 38
  stringTag : Int32 := 2
  undefinedTag : Option Int32 := none
  deriving DecidableEq, Inhabited, Repr

/-- Whether a slot spells a small integer. -/
def isOdd (raw : Int32) : Bool := raw &&& 1 != 0

namespace Markers

/-- The markers in use with their values, in the order in which they are checked. -/
def assigned (t : Markers) : List (Marker × Int32) :=
  [(.true, t.trueTag), (.null, t.nullTag), (.float, t.floatTag), (.false, t.falseTag),
    (.string, t.stringTag)] ++ (t.undefinedTag.map fun v => (Marker.undefined, v)).toList

/-- Checks markers one after the other, each for an even value that no earlier one has. -/
def check (earlier : List (Marker × Int32)) : List (Marker × Int32) → Except Fault Unit
  | [] => .ok ()
  | (marker, value) :: rest =>
    if isOdd value then .error (.config (.oddMarker marker value))
    else
      match earlier.find? fun e => e.2 == value with
      | some (other, _) => .error (.config (.sharedMarker other marker value))
      | none => check (earlier ++ [(marker, value)]) rest

/-- Refuses a table that is not valid. -/
def validate (t : Markers) : Except Fault Unit :=
  check [] t.assigned

/-- The marker that a slot value announces. -/
def marker? (t : Markers) (raw : Int32) : Option Marker :=
  (t.assigned.find? fun e => e.2 == raw).map (·.1)

/-- Whether a slot value is reserved. -/
def isMarker (t : Markers) (raw : Int32) : Bool :=
  raw == t.trueTag || raw == t.nullTag || raw == t.floatTag || raw == t.falseTag ||
    raw == t.stringTag || some raw == t.undefinedTag

end Markers

end TaggedBytecode
