/-!
# Ordered Association Lists

A finite map is kept as a list of entries in **ascending order of key**, each key once, so
that listing the map and writing it out need no sorting.

## Main definitions

* `Assoc.get?` — the value under a key.
* `Assoc.insert` — adds or replaces an entry in its place.
* `Assoc.erase` — drops the entry of a key.
* `Assoc.Ordered` — entries in ascending order, as writes leave them.

## Main results

* `Assoc.get?_insert` — reading after a write.
* `Assoc.get?_erase` — reading after a removal.
* `Assoc.ordered_ofList` — a map that is built by writes is in order.
* `Assoc.ofList_eq_self` — entries in order are the map that they build.
-/

namespace TaggedBytecode.Assoc

variable {κ ν : Type} [DecidableEq κ] [LT κ] [DecidableLT κ]

/-- The value of the first entry with the key. -/
def get? (k : κ) : List (κ × ν) → Option ν
  | [] => none
  | (k', v) :: rest => if k = k' then some v else get? k rest

/-- Adds an entry before the first greater key, or replaces the entry of its key. -/
def insert (k : κ) (v : ν) : List (κ × ν) → List (κ × ν)
  | [] => [(k, v)]
  | (k', v') :: rest =>
    if k = k' then (k, v) :: rest
    else if k < k' then (k, v) :: (k', v') :: rest
    else (k', v') :: insert k v rest

/-- Drops the entries of a key. -/
def erase (k : κ) (entries : List (κ × ν)) : List (κ × ν) :=
  entries.filter fun e => e.1 ≠ k

/-- The map that a list of writes builds; a later write wins. -/
def ofList (entries : List (κ × ν)) : List (κ × ν) :=
  entries.foldl (fun m e => insert e.1 e.2 m) []

omit [LT κ] [DecidableLT κ] in
@[simp] theorem get?_nil (k : κ) : get? k ([] : List (κ × ν)) = none := rfl

theorem get?_insert (k k' : κ) (v : ν) (m : List (κ × ν)) :
    get? k (insert k' v m) = if k = k' then some v else get? k m := by
  induction m with
  | nil => simp [insert, get?]
  | cons e rest ih =>
    obtain ⟨k₀, v₀⟩ := e
    unfold insert
    split
    · rename_i h
      subst h
      by_cases hk : k = k' <;> simp [get?, hk]
    · split
      · by_cases hk : k = k' <;> simp [get?, hk]
      · by_cases hk : k = k₀
        · subst hk
          have : ¬k = k' := fun h => by simp_all
          simp [get?, this]
        · simp [get?, hk, ih]

omit [LT κ] [DecidableLT κ] in
theorem get?_erase (k k' : κ) (m : List (κ × ν)) :
    get? k (erase k' m) = if k = k' then none else get? k m := by
  induction m with
  | nil => simp [erase]
  | cons e rest ih =>
    obtain ⟨k₀, v₀⟩ := e
    unfold erase at ih ⊢
    by_cases h₀ : k₀ = k'
    · subst h₀
      by_cases hk : k = k₀ <;> simp_all [get?]
    · by_cases hk : k = k₀
      · subst hk
        simp [get?, h₀]
      · simp only [ne_eq, h₀, not_false_eq_true, decide_true, List.filter_cons_of_pos, get?, hk,
          if_false]
        exact ih

/-! ### Order -/

/-- The entries are in ascending order of key, each key once. -/
def Ordered (entries : List (κ × ν)) : Prop := entries.Pairwise fun e f => e.1 < f.1

theorem eq_or_mem_of_mem_insert {k : κ} {v : ν} {m : List (κ × ν)} {e : κ × ν}
    (h : e ∈ insert k v m) : e = (k, v) ∨ e ∈ m := by
  induction m with
  | nil => simpa [insert] using h
  | cons first rest ih =>
    obtain ⟨k', v'⟩ := first
    rw [insert] at h
    split at h
    · rcases List.mem_cons.mp h with rfl | h
      · exact .inl rfl
      · exact .inr (List.mem_cons_of_mem _ h)
    · split at h
      · exact List.mem_cons.mp h
      · rcases List.mem_cons.mp h with rfl | h
        · exact .inr List.mem_cons_self
        · exact (ih h).imp_right (List.mem_cons_of_mem _)

variable [LE κ] [Std.IsLinearOrder κ] [Std.LawfulOrderLT κ]

/-- A write keeps the order. -/
theorem ordered_insert (k : κ) (v : ν) {m : List (κ × ν)} (h : Ordered m) :
    Ordered (insert k v m) := by
  induction m with
  | nil => exact List.pairwise_singleton _ _
  | cons first rest ih =>
    obtain ⟨k', v'⟩ := first
    obtain ⟨hfirst, hrest⟩ := List.pairwise_cons.mp h
    rw [insert]
    split
    · rename_i heq
      subst heq
      exact List.pairwise_cons.mpr ⟨hfirst, hrest⟩
    · rename_i hne
      split
      · rename_i hlt
        refine List.pairwise_cons.mpr ⟨fun e he => ?_, h⟩
        rcases List.mem_cons.mp he with rfl | he
        · exact hlt
        · exact Std.lt_trans hlt (hfirst e he)
      · rename_i hge
        have hgt : k' < k := Std.lt_of_le_of_ne (Std.not_lt.mp hge) (Ne.symm hne)
        refine List.pairwise_cons.mpr ⟨fun e he => ?_, ih hrest⟩
        rcases eq_or_mem_of_mem_insert he with rfl | he
        · exact hgt
        · exact hfirst e he

/-- **Writes build a map in order.** -/
theorem ordered_ofList (entries : List (κ × ν)) : Ordered (ofList entries) :=
  List.foldlRecOn entries _ List.Pairwise.nil fun _ hm e _ => ordered_insert e.1 e.2 hm

/-- An entry behind all others goes to the end. -/
theorem insert_of_forall_lt {k : κ} (v : ν) {m : List (κ × ν)} (h : ∀ e ∈ m, e.1 < k) :
    insert k v m = m ++ [(k, v)] := by
  induction m with
  | nil => rfl
  | cons first rest ih =>
    obtain ⟨k', v'⟩ := first
    obtain ⟨hfirst, hrest⟩ := List.forall_mem_cons.mp h
    have hne : k ≠ k' := fun heq => Std.lt_irrefl (heq ▸ hfirst)
    rw [insert, if_neg hne, if_neg (Std.not_lt.mpr (Std.le_of_lt hfirst)), ih hrest,
      List.cons_append]

/-- **Entries in order are the map that they build.** -/
theorem ofList_eq_self {entries : List (κ × ν)} (h : Ordered entries) :
    ofList entries = entries := by
  suffices hgrow : ∀ built rest : List (κ × ν), Ordered (built ++ rest) →
      rest.foldl (fun m e => insert e.1 e.2 m) built = built ++ rest from hgrow [] entries h
  intro built rest hordered
  induction rest generalizing built with
  | nil => exact (List.append_nil built).symm
  | cons e rest ih =>
    have hbefore : ∀ f ∈ built, f.1 < e.1 := fun f hf =>
      (List.pairwise_append.mp hordered).2.2 f hf e List.mem_cons_self
    rw [List.append_cons] at hordered
    rw [List.foldl_cons, insert_of_forall_lt e.2 hbefore, ih _ hordered, ← List.append_cons]

end TaggedBytecode.Assoc
