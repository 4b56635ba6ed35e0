import Mathlib
import TaggedBytecode.Collection.Assoc

/-!
# Association Lists as Finite Maps

In order, the entries of an association list are what is under their keys, and two lists with the
same values under all keys are the same. Writing under a new key adds one entry.

## Main results

* `Assoc.Ordered.mem_iff` — entries and values.
* `Assoc.Ordered.ext` — lists are determined by their values.
* `Assoc.mem_keys_ofList` — the keys that writes leave.
* `Assoc.insert_perm`, `Assoc.ofList_perm` — the entries that writes under new keys leave.
-/

namespace TaggedBytecode.Assoc

open scoped List

instance {κ ν : Type} [LT κ] [DecidableLT κ] (m : List (κ × ν)) : Decidable (Ordered m) :=
  inferInstanceAs (Decidable (List.Pairwise _ _))

section Order

variable {κ ν : Type} [LT κ] [LE κ] [Std.LawfulOrderLT κ]

theorem Ordered.nodup {m : List (κ × ν)} (h : Ordered m) : (m.map (·.1)).Nodup := by
  refine List.pairwise_map.mpr (h.imp fun {e f} hlt => ?_)
  rintro (heq : e.1 = f.1)
  exact Std.lt_irrefl (heq ▸ hlt)

/-- In order, the entries of a map are what is under their keys. -/
theorem Ordered.mem_iff [DecidableEq κ] {m : List (κ × ν)} (h : Ordered m) {k : κ} {v : ν} :
    (k, v) ∈ m ↔ get? k m = some v := by
  induction m with
  | nil => simp
  | cons first rest ih =>
      obtain ⟨k', v'⟩ := first
      obtain ⟨hfirst, hrest⟩ := List.pairwise_cons.mp h
      rw [get?, List.mem_cons]
      by_cases hk : k = k'
      · subst hk
        have hnone : (k, v) ∉ rest := fun hmem => Std.lt_irrefl (hfirst (k, v) hmem)
        simp [hnone, eq_comm]
      · simp [hk, ih hrest]

/-- **In order, equal values are equal lists.** -/
theorem Ordered.ext [DecidableEq κ] {m m' : List (κ × ν)} (h : Ordered m) (h' : Ordered m')
    (heq : ∀ k, get? k m = get? k m') : m = m' := by
  have hperm : m.Perm m' :=
    (List.perm_ext_iff_of_nodup (.of_map _ h.nodup) (.of_map _ h'.nodup)).mpr fun e => by
      rw [h.mem_iff, h'.mem_iff, heq]
  exact hperm.eq_of_pairwise (fun _ _ _ _ hlt hgt => absurd hgt (Std.not_gt_of_lt hlt)) h h'

end Order

variable {κ ν : Type} [DecidableEq κ]

theorem get?_eq_none_iff {k : κ} {m : List (κ × ν)} : get? k m = none ↔ k ∉ m.map (·.1) := by
  induction m with
  | nil => simp
  | cons first rest ih =>
      rw [get?, List.map_cons, List.mem_cons, not_or, ← ih]
      by_cases hk : k = first.1 <;> simp [hk]

variable [LT κ] [DecidableLT κ]

/-- The keys that writes leave are those that were written. Induction on the writes from the
last one. -/
theorem mem_keys_ofList {k : κ} {entries : List (κ × ν)} :
    k ∈ (ofList entries).map (·.1) ↔ k ∈ entries.map (·.1) := by
  induction entries using List.reverseRecOn with
  | nil => exact Iff.rfl
  | append_singleton entries last ih =>
      have hinsert : ofList (entries ++ [last]) = insert last.1 last.2 (ofList entries) :=
        List.foldl_concat ..
      rw [← not_iff_not, ← get?_eq_none_iff] at ih
      rw [← not_iff_not, ← get?_eq_none_iff, hinsert, get?_insert, List.map_append, List.mem_append, not_or]
      by_cases hk : k = last.1
      · simp [hk]
      · simp [hk, ih]

/-- A write under a new key adds its entry. -/
theorem insert_perm {k : κ} (v : ν) {m : List (κ × ν)} (h : get? k m = none) :
    (insert k v m).Perm ((k, v) :: m) := by
  induction m with
  | nil => exact .refl _
  | cons first rest ih =>
      obtain ⟨hne, hrest⟩ := not_or.mp (List.mem_cons.not.mp (get?_eq_none_iff.mp h))
      rw [insert, if_neg hne]
      split
      · exact .refl _
      · exact (List.Perm.cons first (ih (get?_eq_none_iff.mpr hrest))).trans (.swap _ _ rest)

/-- **Writes under different keys leave their entries.** -/
theorem ofList_perm {entries : List (κ × ν)} (h : (entries.map (·.1)).Nodup) :
    (ofList entries).Perm entries := by
  induction entries using List.reverseRecOn with
  | nil => exact .refl _
  | append_singleton entries last ih =>
      rw [List.map_append, List.nodup_append'] at h
      obtain ⟨hnodup, -, hdisjoint⟩ := h
      have hnew : get? last.1 (ofList entries) = none := by
        rw [get?_eq_none_iff, ((ih hnodup).map _).mem_iff]
        exact fun hmem => hdisjoint hmem (List.mem_singleton_self _)
      calc ofList (entries ++ [last])
        _ = insert last.1 last.2 (ofList entries) := List.foldl_concat ..
        _ ~ last :: ofList entries := insert_perm last.2 hnew
        _ ~ last :: entries := .cons last (ih hnodup)
        _ ~ entries ++ [last] := (List.perm_append_singleton last entries).symm

end TaggedBytecode.Assoc
