import TaggedBytecode.Machine.Execution
import TaggedBytecode.Opcode.Basic

/-!
# Handler Tables

Handlers are registered **by name**. Binding an opcode map to a registry gives the **dispatch
table**, which has a place for every opcode number up to the greatest of the map; a place
stays empty if the map has no such opcode or its name has no handler.

## Main definitions

* `HandlerRegistry` — handlers by name.
* `HandlerTable` — handlers by opcode number.
* `HandlerTable.bind` — the table of a map and a registry.
-/

namespace TaggedBytecode

/-- Handlers by opcode name, in ascending order. -/
structure HandlerRegistry where
  entries : List (String × Handler) := []

namespace HandlerRegistry

/-- Adds or replaces a handler. -/
def register (registry : HandlerRegistry) (name : String) (handler : Handler) :
    HandlerRegistry :=
  ⟨Assoc.insert name handler registry.entries⟩

def get? (registry : HandlerRegistry) (name : String) : Option Handler :=
  Assoc.get? name registry.entries

def length (registry : HandlerRegistry) : Nat := registry.entries.length

/-- The registry of some handlers. -/
def ofList (handlers : List (String × Handler)) : HandlerRegistry :=
  handlers.foldl (fun registry (name, handler) => registry.register name handler) {}

end HandlerRegistry

/-- A handler under the name that traces show. -/
structure NamedHandler where
  name : String
  handler : Handler

/-- Handlers by opcode number. -/
structure HandlerTable where
  places : Array (Option NamedHandler) := #[]

namespace HandlerTable

/-- A table with `size` empty places. -/
def ofSize (size : Nat) : HandlerTable := ⟨Array.replicate size none⟩

def size (table : HandlerTable) : Nat := table.places.size

/-- Fills a place, adding empty ones below it as needed. -/
def set (table : HandlerTable) (id : Nat) (entry : NamedHandler) : HandlerTable :=
  let padding := Array.replicate (id + 1 - table.size) none
  ⟨(table.places ++ padding).setIfInBounds id (some entry)⟩

/-- The handler for a raw slot value. -/
def get? (table : HandlerTable) (raw : Int32) : Option NamedHandler :=
  if raw < 0 then none else table.places[raw.toNatClampNeg]?.join

/-- The number of filled places. -/
def assigned (table : HandlerTable) : Nat :=
  table.places.countP (·.isSome)

/-- The table of the opcodes whose names have handlers, possibly none. -/
def fill (map : OpcodeMap) (registry : HandlerRegistry) : HandlerTable :=
  map.entries.foldl
    (fun table (id, info) =>
      match registry.get? info.name with
      | some handler => table.set id ⟨info.name, handler⟩
      | none => table)
    (ofSize map.tableSize)

/-- The table of a map and a registry, which must have an opcode in common. -/
def bind (map : OpcodeMap) (registry : HandlerRegistry) : Except Fault HandlerTable :=
  let table := fill map registry
  if table.assigned = 0 then .error (.config .noOpcodes) else .ok table

end HandlerTable

end TaggedBytecode
