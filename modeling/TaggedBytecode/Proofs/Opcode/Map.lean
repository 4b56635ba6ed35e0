import Mathlib
import TaggedBytecode.Opcode.Basic
import TaggedBytecode.Proofs.Collection.Assoc

/-!
# Well-Formed Opcode Maps

The opcode maps that insertion builds have their numbers in ascending order, and these are numbers
of 32 bits. Such a map is determined by what it finds.

## Main definitions

* `OpcodeMap.WellFormed` — the invariant of opcode maps.

## Main results

* `OpcodeMap.WellFormed.insert` — insertion keeps the invariant.
* `OpcodeMap.WellFormed.ext` — maps are determined by what they find.
-/

namespace TaggedBytecode.OpcodeMap

/-- An opcode map as it is built: each number once, in ascending order, and with 32 bits. -/
structure WellFormed (map : OpcodeMap) : Prop where
  ordered : Assoc.Ordered map.entries
  lt_two_pow : ∀ e ∈ map.entries, e.1 < 2 ^ 32

variable {map map' : OpcodeMap} {id id' : ℕ} {info : OpcodeMeta}

theorem wellFormed_empty : WellFormed {} where
  ordered := List.Pairwise.nil
  lt_two_pow := nofun

theorem find?_insert :
    (map.insert id' info).find? id = if id = id' then some info else map.find? id :=
  Assoc.get?_insert id id' info map.entries

/-- Inserting a new number adds one entry. -/
theorem length_insert (h : map.find? id = none) :
    (map.insert id info).length = map.length + 1 :=
  (Assoc.insert_perm info h).length_eq

namespace WellFormed

theorem insert (h : map.WellFormed) (hid : id < 2 ^ 32) (info : OpcodeMeta) :
    (map.insert id info).WellFormed where
  ordered := Assoc.ordered_insert id info h.ordered
  lt_two_pow e he := by
    rcases Assoc.eq_or_mem_of_mem_insert he with rfl | he
    · exact hid
    · exact h.lt_two_pow e he

theorem mem_entries_iff (h : map.WellFormed) :
    (id, info) ∈ map.entries ↔ map.find? id = some info :=
  h.ordered.mem_iff

/-- **Maps that find the same are the same.** -/
theorem ext (h : map.WellFormed) (h' : map'.WellFormed)
    (heq : ∀ id, map.find? id = map'.find? id) : map = map' := by
  cases map
  cases map'
  exact congrArg OpcodeMap.mk (h.ordered.ext h'.ordered heq)

end WellFormed

end TaggedBytecode.OpcodeMap
