import Mathlib
import TaggedBytecode.Program.Dump
import TaggedBytecode.Proofs.Document.Written
import TaggedBytecode.Proofs.Program.Stats

/-!
# Reading Back Dumps

A dump is written as an indented tree and read back from that, slots, summary and all, as long as
the counts of its summary fit 64 bits. The summary of a program counts no more than the program
has slots, so that its own dump can only fail to be read back if the number of slots does not fit.

## Main definitions

* `ProgramStats.Fits` — the counts of a summary fit 64 bits.

## Main results

* `Shape.listOf_array` — lists are read item by item.
* `ProgramStats.shape_toJson`, `ProgramDump.shape_toJson` — summaries and dumps are read from their
  documents.
* `ProgramDump.ofText_indented` — a dump is read from its text.
* `ProgramStats.fits_of` — the summaries of programs.
-/

namespace TaggedBytecode

/-! ### Counts, bounds and lists -/

theorem Json.documents_eq_map (vs : List Json) : documents vs = vs.map document := by
  induction vs with
  | nil => rfl
  | cons v vs ih => rw [documents, ih, List.map_cons]

namespace Shape

/-- A count of 64 bits is read back. -/
theorem nat_nat {n : Nat} (h : n < 2 ^ 64) : nat (Json.nat n).document = some n := by
  have hrange : (0 : Int) ≤ n ∧ (n : Int) ≤ 0xffffffffffffffff := by omega
  rw [Json.nat, Json.document_integer (by omega) (by omega), nat, integer, Document.resolved,
    Resolved.integer?_ofInt, Option.bind_some, if_pos hrange, Option.map_some, Int.toNat_natCast]

/-- A slot that may be absent is read back. -/
theorem optional_int32_option (v : Option Int32) :
    optional int32 (Json.option (fun v => .integer v.toInt) v).document = some v := by
  cases v with
  | none => rfl
  | some v => exact optional_int32_integer v

/-- **A list is read item by item.** -/
theorem listOf_array {α : Type} {shape : Shape α} {tree : α → Json} {as : List α}
    (h : ∀ a ∈ as, shape (tree a).document = some a) :
    listOf shape (Json.array (as.map tree)).document = some as := by
  have hitems : ((as.map tree).map Json.document).mapM shape = some as := by
    induction as with
    | nil => rfl
    | cons a as ih =>
        obtain ⟨ha, has⟩ := List.forall_mem_cons.mp h
        rw [List.map_cons, List.map_cons, List.mapM_cons, ha, ih has]
        rfl
  rw [Json.document, listOf, Json.documents_eq_map]
  exact hitems

end Shape

/-! ### Summaries -/

namespace ProgramStats

variable {s : ProgramStats}

/-- The counts of a summary fit 64 bits. -/
structure Fits (s : ProgramStats) : Prop where
  length : s.length < 2 ^ 64
  unique : s.unique < 2 ^ 64

/-- The summary of a program has no greater counts than the program has slots. -/
theorem fits_of {program : Program} (h : program.size < 2 ^ 64) : (of program).Fits := by
  have hunique : (distinctSlots program.toList).length ≤ program.size := by
    rw [(distinctSlots_perm _).length_eq, ← Array.length_toList]
    exact (List.dedup_sublist _).length_le
  exact ⟨h, Nat.lt_of_le_of_lt hunique h⟩

/-- **A summary is read from its document.** -/
theorem shape_toJson (h : s.Fits) : shape s.toJson.document = some s := by
  rw [shape, toJson, Shape.record_object (by simp)]
  simp [List.lookup, Shape.required, Shape.withDefault, Shape.nat_nat h.length,
    Shape.nat_nat h.unique, Shape.optional_int32_option]

theorem optional_shape_toJson (h : s.Fits) :
    Shape.optional shape s.toJson.document = some (some s) := by
  have hobject : s.toJson.document.resolved = .other := rfl
  rw [Shape.optional, hobject, if_neg (by decide), shape_toJson h, Option.map_some]

theorem writable_toJson (s : ProgramStats) : s.toJson.Writable := by
  have hbound : ∀ v : Option Int32, (Json.option (fun v => .integer v.toInt) v).Writable := by
    rintro (_ | v)
    · exact .null
    · exact .integer v.toInt
  refine .object fun m hm => ?_
  simp only [List.mem_cons, List.not_mem_nil, or_false] at hm
  rcases hm with rfl | rfl | rfl | rfl
  · exact .integer s.length
  · exact .integer s.unique
  · exact hbound s.min
  · exact hbound s.max

end ProgramStats

/-! ### Dumps -/

namespace ProgramDump

variable {dump : ProgramDump}

/-- **A dump is read from its document.** -/
theorem shape_toJson (h : ∀ s ∈ dump.stats, s.Fits) : shape dump.toJson.document = some dump := by
  obtain ⟨program, stats⟩ := dump
  have hslots : Shape.listOf Shape.int32
      (Json.array (program.toList.map fun v => .integer v.toInt)).document = some program.toList :=
    Shape.listOf_array fun v _ => Shape.int32_integer v
  cases stats with
  | none =>
      rw [shape, toJson, Shape.record_object (by simp)]
      simp [List.lookup, Shape.required, Shape.withDefault, hslots]
  | some s =>
      rw [shape, toJson, Shape.record_object (by simp)]
      simp [List.lookup, Shape.required, Shape.withDefault, hslots,
        ProgramStats.optional_shape_toJson (h s rfl)]

theorem writable_toJson (dump : ProgramDump) : dump.toJson.Writable := by
  refine .object fun m hm => ?_
  rcases List.mem_cons.mp hm with rfl | hm
  · refine .array fun v hv => ?_
    obtain ⟨slot, -, rfl⟩ := List.mem_map.mp hv
    exact .integer slot.toInt
  · obtain ⟨s, -, rfl⟩ := Option.map_eq_some_iff.mp (Option.mem_toList.mp hm)
    exact s.writable_toJson

/-- **A dump is read from its text.** -/
theorem ofText_indented (h : ∀ s ∈ dump.stats, s.Fits) :
    ofText dump.toJson.indented = .ok dump := by
  rw [ofText, dump.writable_toJson.ofText?_indented, Option.map_some, Option.bind_some,
    shape_toJson h]

end ProgramDump

end TaggedBytecode
