import Mathlib
import TaggedBytecode.Collection.Tally
import TaggedBytecode.Proofs.Collection.Assoc

/-!
# Rankings

A tally of a list has the values of the list, each once and with the number of times it occurs
there. Its ranking has the same entries, and there is only one order that they can be in: by
decreasing count, and by ascending value where counts are equal.

## Main definitions

* `Tally.Ranks` — a list of entries is the ranking of some values.

## Main results

* `Tally.get?_ofList` — what a tally has under a value.
* `Tally.ranks_of_perm`, `Tally.ranks_ofList` — the ranking of a tally is the ranking of the values
  that it counted.
* `Tally.Ranks.unique` — there is one ranking of some values.
-/

namespace TaggedBytecode

namespace Tally

section Order

variable {κ : Type} [LT κ] [DecidableLT κ] [LE κ] [Std.IsLinearOrder κ] [Std.LawfulOrderLT κ]

/-- One entry ranks before another if its count is greater, or equal and its value no greater. -/
theorem ranksBefore_iff {a b : κ × Nat} :
    ranksBefore a b = true ↔ b.2 < a.2 ∨ a.2 = b.2 ∧ a.1 ≤ b.1 := by
  simp [ranksBefore, Std.not_lt]

theorem ranksBefore_trans (a b c : κ × Nat) (hab : ranksBefore a b = true)
    (hbc : ranksBefore b c = true) : ranksBefore a c = true := by
  rw [ranksBefore_iff] at *
  rcases hab with hab | ⟨hab, hle⟩
  · rcases hbc with hbc | ⟨hbc, -⟩
    · exact .inl (Nat.lt_trans hbc hab)
    · exact .inl (hbc ▸ hab)
  · rcases hbc with hbc | ⟨hbc, hle'⟩
    · exact .inl (hab ▸ hbc)
    · exact .inr ⟨hab.trans hbc, Std.le_trans hle hle'⟩

theorem ranksBefore_total (a b : κ × Nat) : (ranksBefore a b || ranksBefore b a) = true := by
  rw [Bool.or_eq_true, ranksBefore_iff, ranksBefore_iff]
  rcases Nat.lt_trichotomy a.2 b.2 with hlt | heq | hgt
  · exact .inr (.inl hlt)
  · exact (Std.le_total (a := a.1) (b := b.1)).imp (fun h => .inr ⟨heq, h⟩)
      fun h => .inr ⟨heq.symm, h⟩
  · exact .inl (.inl hgt)

end Order

variable {κ : Type} [DecidableEq κ] [LT κ] [DecidableLT κ]

/-- A list of entries ranks some values: every value that occurs has one entry, with its number
of occurrences; and the entries stand by decreasing count, equal counts by ascending value. -/
structure Ranks (ranking : List (κ × Nat)) (ks : List κ) : Prop where
  nodup : (ranking.map (·.1)).Nodup
  mem_iff : ∀ k count, (k, count) ∈ ranking ↔ k ∈ ks ∧ count = ks.count k
  sum : (ranking.map (·.2)).sum = ks.length
  sorted : ranking.Pairwise fun a b => b.2 < a.2 ∨ a.2 = b.2 ∧ a.1 < b.1

omit [DecidableLT κ] in
/-- In which order the values occur does not matter. -/
theorem Ranks.perm {ranking : List (κ × Nat)} {ks ks' : List κ} (h : Ranks ranking ks)
    (hperm : ks.Perm ks') : Ranks ranking ks' where
  nodup := h.nodup
  mem_iff k count := by rw [h.mem_iff, hperm.mem_iff, hperm.count_eq]
  sum := h.sum.trans hperm.length_eq
  sorted := h.sorted

theorem ofList_append (ks : List κ) (k : κ) : ofList (ks ++ [k]) = (ofList ks).add k :=
  List.foldl_append

/-- **What a tally has under a value**: the number of its occurrences, if it occurs. Induction
on the list from its end. -/
theorem get?_ofList (ks : List κ) (k : κ) :
    Assoc.get? k (ofList ks).counts = if k ∈ ks then some (ks.count k) else none := by
  induction ks using List.reverseRecOn with
  | nil => rfl
  | append_singleton ks last ih =>
      rw [ofList_append, add, Assoc.get?_insert, List.count_append]
      by_cases hk : k = last
      · subst hk
        rw [count, ih]
        by_cases hmem : k ∈ ks
        · simp [hmem]
        · simp [hmem, List.count_eq_zero.mpr hmem]
      · rw [if_neg hk, ih]
        simp [hk, Ne.symm hk]

variable [LE κ] [Std.IsLinearOrder κ] [Std.LawfulOrderLT κ]

theorem ordered_ofList (ks : List κ) : Assoc.Ordered (ofList ks).counts := by
  induction ks using List.reverseRecOn with
  | nil => exact List.Pairwise.nil
  | append_singleton ks last ih =>
      rw [ofList_append]
      exact Assoc.ordered_insert _ _ ih

/-- Tallies do not know the order of their values. -/
theorem ofList_eq_of_perm {ks ks' : List κ} (h : ks.Perm ks') : ofList ks = ofList ks' := by
  have hcounts : (ofList ks).counts = (ofList ks').counts :=
    (ordered_ofList ks).ext (ordered_ofList ks') fun k => by
      simp only [get?_ofList, h.count_eq, h.mem_iff]
  exact congrArg Tally.mk hcounts

theorem mem_counts_ofList (ks : List κ) (k : κ) (count : Nat) :
    (k, count) ∈ (ofList ks).counts ↔ k ∈ ks ∧ count = ks.count k := by
  rw [(ordered_ofList ks).mem_iff, get?_ofList]
  by_cases hmem : k ∈ ks <;> simp [hmem, eq_comm]

/-- A tally has the values of the list, each once. -/
theorem keys_ofList_perm (ks : List κ) : ((ofList ks).counts.map (·.1)).Perm ks.dedup := by
  refine (List.perm_ext_iff_of_nodup (ordered_ofList ks).nodup ks.nodup_dedup).mpr fun k => ?_
  rw [List.mem_dedup, List.mem_map]
  constructor
  · rintro ⟨e, he, rfl⟩
    exact ((mem_counts_ofList ks e.1 e.2).mp he).1
  · exact fun hk => ⟨(k, ks.count k), (mem_counts_ofList ks k _).mpr ⟨hk, rfl⟩, rfl⟩

/-- The counts of a tally add up to the length of the list. -/
theorem sum_counts_ofList (ks : List κ) : ((ofList ks).counts.map (·.2)).sum = ks.length := by
  have hvalues : (ofList ks).counts.map (·.2) =
      ((ofList ks).counts.map (·.1)).map (ks.count ·) := by
    rw [List.map_map]
    refine List.map_congr_left fun e he => ?_
    exact ((mem_counts_ofList ks e.1 e.2).mp he).2
  rw [hvalues, ((keys_ofList_perm ks).map _).sum_eq, List.sum_map_count_dedup_eq_length]

/-- **The ranking of a tally** is the ranking of the values that it counted, in whatever order
its entries stand. -/
theorem ranks_of_perm {t : Tally κ} {ks : List κ} (h : t.counts.Perm (ofList ks).counts) :
    Ranks t.ranking ks := by
  have hperm : t.ranking.Perm (ofList ks).counts := (List.mergeSort_perm _ _).trans h
  have hnodup : (t.ranking.map (·.1)).Nodup :=
    (hperm.map _).nodup_iff.mpr (ordered_ofList ks).nodup
  refine ⟨hnodup, fun k count => ?_, ?_, ?_⟩
  · rw [hperm.mem_iff, mem_counts_ofList]
  · rw [(hperm.map _).sum_eq, sum_counts_ofList]
  · have hsorted := List.pairwise_mergeSort ranksBefore_trans ranksBefore_total t.counts
    refine (hsorted.and (List.pairwise_map.mp hnodup)).imp fun ⟨hbefore, hne⟩ => ?_
    exact (ranksBefore_iff.mp hbefore).imp_right
      fun ⟨heq, hle⟩ => ⟨heq, Std.lt_of_le_of_ne hle hne⟩

theorem ranks_ofList (ks : List κ) : Ranks (ofList ks).ranking ks :=
  ranks_of_perm (.refl _)

omit [DecidableLT κ] [Std.IsLinearOrder κ] in
/-- **There is one ranking** of some values. -/
theorem Ranks.unique {ranking ranking' : List (κ × Nat)} {ks : List κ} (h : Ranks ranking ks)
    (h' : Ranks ranking' ks) : ranking = ranking' := by
  have hperm : ranking.Perm ranking' :=
    (List.perm_ext_iff_of_nodup (.of_map _ h.nodup) (.of_map _ h'.nodup)).mpr fun e => by
      rw [h.mem_iff, h'.mem_iff]
  refine hperm.eq_of_pairwise (fun a b _ _ hab hba => ?_) h.sorted h'.sorted
  rcases hab with hlt | ⟨heq, hlt⟩
  · rcases hba with hgt | ⟨heq, -⟩ <;> omega
  · rcases hba with hgt | ⟨-, hgt⟩
    · omega
    · exact absurd hgt (Std.not_gt_of_lt hlt)

end Tally

end TaggedBytecode
