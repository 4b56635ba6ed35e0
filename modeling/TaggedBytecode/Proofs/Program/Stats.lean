import Mathlib
import TaggedBytecode.Program.Stats
import TaggedBytecode.Proofs.Collection.Assoc

/-!
# The Distinct Values of a Program

A summary reads its numbers off the distinct values of a program in ascending order. They are as
many as the program has values, the first of them is the least slot and the last is the greatest.

## Main results

* `distinctSlots_perm` — each value once.
* `head?_distinctSlots`, `getLast?_distinctSlots` — the bounds.
-/

namespace TaggedBytecode

/-- The greater of two slots is their least upper bound. -/
instance instLawfulOrderMaxInt32 : Std.LawfulOrderMax Int32 where
  max_eq_or a b := by
    change (if a ≤ b then b else a) = a ∨ (if a ≤ b then b else a) = b
    split
    · exact .inr rfl
    · exact .inl rfl
  max_le_iff a b c := by
    change (if a ≤ b then b else a) ≤ c ↔ a ≤ c ∧ b ≤ c
    split
    · rename_i hab
      exact ⟨fun hbc => ⟨Std.le_trans hab hbc, hbc⟩, fun h => h.2⟩
    · rename_i hab
      have hba : b ≤ a := Std.le_of_lt (Std.not_le.mp hab)
      exact ⟨fun hac => ⟨hac, Std.le_trans hba hac⟩, fun h => h.1⟩

variable {slots slots' : List Int32}

theorem ascending_distinctSlots (slots : List Int32) : (distinctSlots slots).Pairwise (· < ·) :=
  List.pairwise_map.mpr (Assoc.ordered_ofList _)

theorem mem_distinctSlots {v : Int32} : v ∈ distinctSlots slots ↔ v ∈ slots := by
  have hkeys : (slots.map fun v => (v, ())).map (·.1) = slots := by
    rw [List.map_map]
    exact List.map_id slots
  rw [distinctSlots, Assoc.mem_keys_ofList, hkeys]

/-- Each value that occurs is there once. -/
theorem distinctSlots_perm (slots : List Int32) : (distinctSlots slots).Perm slots.dedup := by
  have hnodup : (distinctSlots slots).Nodup :=
    (ascending_distinctSlots slots).imp Std.ne_of_lt
  refine (List.perm_ext_iff_of_nodup hnodup slots.nodup_dedup).mpr fun v => ?_
  rw [mem_distinctSlots, List.mem_dedup]

/-- Lists with the same values have the same least value. -/
theorem min?_eq_of_mem_iff (h : ∀ v, v ∈ slots ↔ v ∈ slots') : slots.min? = slots'.min? :=
  Option.ext fun m => by simp only [List.min?_eq_some_iff, h]

/-- Lists with the same values have the same greatest value. -/
theorem max?_eq_of_mem_iff (h : ∀ v, v ∈ slots ↔ v ∈ slots') : slots.max? = slots'.max? :=
  Option.ext fun m => by simp only [List.max?_eq_some_iff, h]

/-- The first of the distinct values is the least value. -/
theorem head?_distinctSlots (slots : List Int32) : (distinctSlots slots).head? = slots.min? := by
  have hleft : (distinctSlots slots).Pairwise fun a b => min a b = a :=
    (ascending_distinctSlots slots).imp fun hlt => if_pos (Std.le_of_lt hlt)
  rw [← List.min?_eq_head? hleft, min?_eq_of_mem_iff fun _ => mem_distinctSlots]

/-- The last of the distinct values is the greatest value. -/
theorem getLast?_distinctSlots (slots : List Int32) :
    (distinctSlots slots).getLast? = slots.max? := by
  have hleft : (distinctSlots slots).reverse.Pairwise fun a b => max a b = a :=
    List.pairwise_reverse.mpr
      ((ascending_distinctSlots slots).imp fun hlt => if_neg (Std.not_le.mpr hlt))
  rw [← List.head?_reverse, ← List.max?_eq_head? hleft,
    max?_eq_of_mem_iff fun _ => List.mem_reverse.trans mem_distinctSlots]

end TaggedBytecode
