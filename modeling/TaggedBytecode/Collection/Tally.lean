import TaggedBytecode.Collection.Assoc

/-!
# Tallies

A **tally** counts how often each of some values occurred. Its **ranking** lists the values
by decreasing count, and values that occurred equally often in ascending order.

## Main definitions

* `Tally.add`, `Tally.ofList` — counting.
* `Tally.ranking` — the values with their counts, most frequent first.
-/

namespace TaggedBytecode

/-- Counts by value, in ascending order of value. -/
structure Tally (κ : Type) where
  counts : List (κ × Nat)

namespace Tally

variable {κ : Type} [DecidableEq κ] [LT κ] [DecidableLT κ]

def empty : Tally κ := ⟨[]⟩

omit [LT κ] [DecidableLT κ] in
/-- How often a value was counted. -/
def count (t : Tally κ) (k : κ) : Nat :=
  (Assoc.get? k t.counts).getD 0

/-- Counts a value once more. -/
def add (t : Tally κ) (k : κ) : Tally κ :=
  ⟨Assoc.insert k (t.count k + 1) t.counts⟩

/-- Counts every element of a list. -/
def ofList (ks : List κ) : Tally κ :=
  ks.foldl add empty

/-- Whether one entry comes no later than another in a ranking. -/
def ranksBefore (a b : κ × Nat) : Bool :=
  decide (b.2 < a.2) || (a.2 == b.2 && !decide (b.1 < a.1))

/-- The entries by decreasing count, equal counts by ascending value. -/
def ranking (t : Tally κ) : List (κ × Nat) :=
  t.counts.mergeSort ranksBefore

omit [LT κ] [DecidableLT κ] in
@[simp] theorem count_empty (k : κ) : (empty : Tally κ).count k = 0 := rfl

theorem count_add (t : Tally κ) (k k' : κ) :
    (t.add k').count k = if k = k' then t.count k + 1 else t.count k := by
  by_cases h : k = k'
  · subst h
    simp [add, count, Assoc.get?_insert]
  · simp [add, count, Assoc.get?_insert, h]

end Tally

end TaggedBytecode
