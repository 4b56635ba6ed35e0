import Mathlib
import TaggedBytecode.Proofs.Binary64.Rounding
import TaggedBytecode.Proofs.Val.Containers

/-!
# Lists as Bounded Arrays

A number is a key of a list if it **denotes** an index, whether it is an integer or a float. Both
are converted to a float first, so a large integer is rounded, but no integer is rounded to an
index below `2 ^ 53` other than itself. So a list that starts empty and is written under numbers
is an array of at most `2 ^ 20` items, which grows to the greatest index that was written.

## Main definitions

* `Val.Denotes` — the integer that a numeric key is.
* `ListWrite` — a write to a list under a numeric key.
* `ListWrite.performAll` — a history of writes, of which the refused ones change nothing.
* `ListWrite.LastWrittenAt` — the value that a history leaves at an index.
* `ListWrite.Holds` — the items that a history leaves.

## Main results

* `Binary64.isWhole_ofInt_iff` — which integers are rounded to a small one.
* `Val.setProperty_list_eq_error_iff` — which writes to a list are refused, and why.
* `ListWrite.Holds.perform`, `ListWrite.holds_performAll` — one write and every history.
* `Val.lists_are_bounded_arrays` — what a history leaves to be read.
-/

namespace TaggedBytecode

/-! ### Indices -/

namespace Binary64

variable {x : Binary64} {n : Int64}

/-- **The index of a word** is the natural number that it is. -/
theorem toIndex?_eq_some_iff {i : ℕ} : x.toIndex? = some i ↔ x.IsWhole i := by
  have hindex : x.toIndex? = some i ↔
      (∃ n, x.IsWhole n) ∧ 0 ≤ x.toRat ∧ x.truncate.toNat = i := by
    rw [toIndex?, Option.ite_none_right_eq_some, Bool.and_eq_true, isIntegral_iff,
      toRat_nonneg_iff, Option.some.injEq, and_assoc]
    simp
  rw [hindex]
  constructor
  · rintro ⟨⟨n, hn⟩, hsign, rfl⟩
    have hpos : 0 ≤ n := by
      rw [hn.2] at hsign
      exact_mod_cast hsign
    rw [hn.truncate_eq, Int.toNat_of_nonneg hpos]
    exact hn
  · intro h
    refine ⟨⟨i, h⟩, ?_, ?_⟩
    · rw [h.2]
      exact_mod_cast Nat.zero_le i
    · rw [h.truncate_eq, Int.toNat_natCast]

theorem toIndex?_eq_none_iff : x.toIndex? = none ↔ ∀ i : ℕ, ¬ x.IsWhole i := by
  simp only [Option.eq_none_iff_forall_ne_some, ne_eq, toIndex?_eq_some_iff]

/-- An integer is not rounded past an exact one below it. -/
theorem le_toRat_ofInt (n : Int64) {i : ℤ} (hi : i.natAbs ≤ 2 ^ 53) (hle : i ≤ n.toInt) :
    (i : ℚ) ≤ (ofInt n.toInt).toRat := by
  obtain ⟨y, hy, hvalue⟩ := isExact_of_natAbs_le hi
  rw [← hvalue]
  exact (ofInt_toInt_isNearest n).le_toRat hy (hvalue ▸ Int.cast_le.mpr hle)

/-- An integer is not rounded past an exact one above it. -/
theorem toRat_ofInt_le (n : Int64) {i : ℤ} (hi : i.natAbs ≤ 2 ^ 53) (hle : n.toInt ≤ i) :
    (ofInt n.toInt).toRat ≤ i := by
  obtain ⟨y, hy, hvalue⟩ := isExact_of_natAbs_le hi
  rw [← hvalue]
  exact (ofInt_toInt_isNearest n).toRat_le hy (hvalue ▸ Int.cast_le.mpr hle)

/-- **No other integer is rounded to one below `2 ^ 53`**: its neighbours are exact as well. -/
theorem isWhole_ofInt_iff {i : ℤ} (hi : i.natAbs < 2 ^ 53) :
    (ofInt n.toInt).IsWhole i ↔ n.toInt = i := by
  constructor
  · rintro ⟨-, hvalue⟩
    rcases lt_trichotomy n.toInt i with hlt | heq | hgt
    · have hle := toRat_ofInt_le n (i := i - 1) (by omega) (by omega)
      rw [hvalue, Int.cast_le] at hle
      omega
    · exact heq
    · have hle := le_toRat_ofInt n (i := i + 1) (by omega) (by omega)
      rw [hvalue, Int.cast_le] at hle
      omega
  · intro heq
    have hnearest := ofInt_toInt_isNearest n
    rw [heq] at hnearest ⊢
    exact (isExact_of_natAbs_le hi.le).isNearest_iff.mp hnearest

/-- Words from `2 ^ 52` on in magnitude have no fraction. -/
theorem isIntegral_of_le_abs (hx : x.isFinite = true) (h : (binade : ℚ) ≤ |x.toRat|) :
    x.isIntegral = true := by
  obtain ⟨digits, hone⟩ : ∃ digits, unitsPerOne = 2 ^ digits := ⟨_, unitsPerOne_eq⟩
  have hunits : binade * 2 ^ digits ≤ unitsAt x.magnitude := by
    rw [abs_toRat, le_div_iff₀ (Nat.cast_pos.mpr unitsPerOne_pos), hone] at h
    exact_mod_cast h
  have hdvd : unitsPerOne ∣ x.units := hone ▸ two_pow_dvd_unitsAt hunits
  rw [isIntegral, hx, Bool.true_and, beq_iff_eq]
  exact Nat.mod_eq_zero_of_dvd hdvd

/-- **An integer has an index** just if it is not negative. -/
theorem toIndex?_ofInt_eq_none_iff : (ofInt n.toInt).toIndex? = none ↔ n.toInt < 0 := by
  constructor
  · intro hnone
    by_contra hpos
    rw [toIndex?_eq_none_iff] at hnone
    rcases Nat.lt_or_ge n.toInt.natAbs (2 ^ 53) with hsmall | hlarge
    · refine hnone n.toInt.toNat ((isWhole_ofInt_iff (by omega)).mpr (by omega))
    · have hvalue : ((2 ^ 53 : ℤ) : ℚ) ≤ (ofInt n.toInt).toRat :=
        le_toRat_ofInt n (by decide) (by omega)
      have hintegral : (ofInt n.toInt).isIntegral = true := by
        refine isIntegral_of_le_abs (ofInt_toInt_isNearest n).isFinite ?_
        exact le_trans (by norm_num [binade]) (hvalue.trans (le_abs_self _))
      obtain ⟨i, hi⟩ := isIntegral_iff.mp hintegral
      rw [hi.2, Int.cast_le] at hvalue
      refine hnone i.toNat ?_
      rw [Int.toNat_of_nonneg (by omega)]
      exact hi
  · rw [toIndex?_eq_none_iff]
    rintro hneg i ⟨-, hvalue⟩
    have hle := toRat_ofInt_le n (i := -1) (by decide) (by omega)
    rw [hvalue, Int.cast_le] at hle
    omega

end Binary64

/-! ### Keys -/

namespace Val

variable {identity old index : ℕ} {items : List Val} {key value : Val} {i j : ℤ}

/-- The integer that a number **denotes**: the integer itself, and the one that a float is. -/
def Denotes : Val → ℤ → Prop
  | int n, i => n.toInt = i
  | float x, i => x.IsWhole i
  | _, _ => False

instance : (key : Val) → (i : ℤ) → Decidable (key.Denotes i)
  | int n, i => inferInstanceAs (Decidable (n.toInt = i))
  | float x, i => inferInstanceAs (Decidable (x.IsWhole i))
  | undefined, _ | null, _ | bool _, _ | str _, _ | list .., _ | map .., _ => .isFalse id

theorem Denotes.unique (hi : key.Denotes i) (hj : key.Denotes j) : i = j := by
  cases key with
  | int n => exact Eq.trans (Eq.symm hi) hj
  | float x => exact Binary64.IsWhole.unique hi hj
  | _ => cases hi

/-- **The index of a numeric key**, as writes and reads convert it, is the number that the key
denotes. -/
theorem toIndex?_toNumber_eq_some_iff (hkey : key.isNumber = true) (hindex : index < 2 ^ 53) :
    key.toNumber.toIndex? = some index ↔ key.Denotes index := by
  cases key with
  | int n => exact Binary64.toIndex?_eq_some_iff.trans (Binary64.isWhole_ofInt_iff hindex)
  | float x => exact Binary64.toIndex?_eq_some_iff
  | _ => cases hkey

theorem toIndex?_toNumber_eq_none_iff (hkey : key.isNumber = true) :
    key.toNumber.toIndex? = none ↔ ∀ i : ℕ, ¬ key.Denotes i := by
  cases key with
  | int n =>
      refine Binary64.toIndex?_ofInt_eq_none_iff.trans ⟨?_, fun hnone => ?_⟩
      · rintro hneg i (heq : n.toInt = i)
        omega
      · by_contra hpos
        exact hnone n.toInt.toNat (Int.toNat_of_nonneg (not_lt.mp hpos)).symm
  | float x => exact Binary64.toIndex?_eq_none_iff
  | _ => cases hkey

/-! ### Writes and reads -/

/-- A write at an index below the bound. -/
theorem setProperty_list_of_denotes (hkey : key.isNumber = true) (hindex : index < 2 ^ 20)
    (hdenotes : key.Denotes index) :
    (list old items).setProperty identity key value =
      .ok (list identity (setItem items index value)) := by
  have hsome := (toIndex?_toNumber_eq_some_iff hkey (hindex.trans (by decide))).mpr hdenotes
  rw [setProperty, hsome]
  exact if_neg (Nat.not_le.mpr hindex)

/-- A write beyond the bound. -/
theorem setProperty_list_of_le (hkey : key.isNumber = true) (hindex : 2 ^ 20 ≤ index)
    (hdenotes : key.Denotes index) :
    (list old items).setProperty identity key value = .error (.tooLong key.text) := by
  obtain ⟨i, hi⟩ : ∃ i, key.toNumber.toIndex? = some i := by
    refine Option.ne_none_iff_exists'.mp fun hnone => ?_
    exact (toIndex?_toNumber_eq_none_iff hkey).mp hnone index hdenotes
  have hbeyond : maxListLength ≤ i := by
    by_contra hlow
    have hsmall : i < 2 ^ 20 := Nat.lt_of_not_le hlow
    have heq := hdenotes.unique
      ((toIndex?_toNumber_eq_some_iff hkey (hsmall.trans (by decide))).mp hi)
    omega
  rw [setProperty, hi]
  exact if_pos hbeyond

/-- A write under a number that is no index. -/
theorem setProperty_list_of_not_denotes (hkey : key.isNumber = true)
    (hdenotes : ∀ i : ℕ, ¬ key.Denotes i) :
    (list old items).setProperty identity key value = .error (.invalidIndex key.text) := by
  rw [setProperty, (toIndex?_toNumber_eq_none_iff hkey).mpr hdenotes]

/-- **Which writes to a list are refused**: those whose key denotes no index below the bound. -/
theorem setProperty_list_eq_error_iff (hkey : key.isNumber = true) :
    (∃ refusal, (list old items).setProperty identity key value = .error refusal) ↔
      ¬ ∃ i : ℕ, i < 2 ^ 20 ∧ key.Denotes i := by
  by_cases hdenotes : ∃ i : ℕ, key.Denotes i
  · obtain ⟨index, hindex⟩ := hdenotes
    rcases Nat.lt_or_ge index (2 ^ 20) with hlow | hhigh
    · rw [setProperty_list_of_denotes hkey hlow hindex]
      exact iff_of_false nofun (not_not_intro ⟨index, hlow, hindex⟩)
    · rw [setProperty_list_of_le hkey hhigh hindex]
      refine iff_of_true ⟨_, rfl⟩ fun ⟨i, hlow, hi⟩ => ?_
      have heq := hi.unique hindex
      omega
  · rw [setProperty_list_of_not_denotes hkey (not_exists.mp hdenotes)]
    exact iff_of_true ⟨_, rfl⟩ fun ⟨i, _, hi⟩ => hdenotes ⟨i, hi⟩

/-- What is read under a number that denotes an index. -/
theorem getProperty_list_of_denotes (hlength : items.length ≤ 2 ^ 53) (hkey : key.isNumber = true)
    (hdenotes : key.Denotes index) :
    (list identity items).getProperty key = items[index]?.getD undefined := by
  rw [getProperty_list_of_isNumber hkey]
  cases hindex : key.toNumber.toIndex? with
  | none => exact absurd hdenotes ((toIndex?_toNumber_eq_none_iff hkey).mp hindex index)
  | some i =>
      -- a large integer may be rounded, but not to an index of the list
      rcases Nat.lt_or_ge index (2 ^ 53) with hlow | hhigh
      · rw [(toIndex?_toNumber_eq_some_iff hkey hlow).mpr hdenotes] at hindex
        rw [Option.some.inj hindex]
      · have hbeyond : 2 ^ 53 ≤ i := by
          by_contra hlow
          have heq := hdenotes.unique
            ((toIndex?_toNumber_eq_some_iff hkey (Nat.lt_of_not_le hlow)).mp hindex)
          omega
        simp only [List.getElem?_eq_none (hlength.trans hbeyond),
          List.getElem?_eq_none (hlength.trans hhigh)]

/-- What is read under a number that is no index. -/
theorem getProperty_list_of_not_denotes (hkey : key.isNumber = true)
    (hdenotes : ∀ i : ℕ, ¬ key.Denotes i) :
    (list identity items).getProperty key = undefined := by
  rw [getProperty_list_of_isNumber hkey, (toIndex?_toNumber_eq_none_iff hkey).mpr hdenotes]

/-- A list grows just as far as the index that is set. -/
theorem length_setItem (items : List Val) (index : ℕ) (value : Val) :
    (setItem items index value).length = max items.length (index + 1) := by
  rw [setItem, List.length_set, List.length_append, List.length_replicate]
  omega

/-- Setting an item changes what is read at its index only. -/
theorem getD_setItem (items : List Val) (index : ℕ) (value : Val) (i : ℕ) :
    (setItem items index value)[i]?.getD undefined =
      if i = index then value else items[i]?.getD undefined := by
  split
  · subst i
    rw [getElem?_setItem, Option.getD_some]
  · rename_i hne
    rw [setItem, List.getElem?_set_ne (Ne.symm hne), List.getElem?_append,
      List.getElem?_replicate]
    split
    · rfl
    · rename_i hend
      rw [List.getElem?_eq_none (not_lt.mp hend)]
      split <;> rfl

end Val

/-! ### Histories of writes -/

/-- A **write to a list** under a numeric key. The identity is that of the list it makes. -/
structure ListWrite where
  identity : ℕ
  key : Val
  value : Val
  isNumber : key.isNumber = true

namespace ListWrite

variable {w : ListWrite} {ws : List ListWrite} {items : List Val} {old index i : ℕ} {value : Val}

/-- Performs a write. A refused write leaves the list as it is. -/
def perform (object : Val) (w : ListWrite) : Val :=
  match object.setProperty w.identity w.key w.value with
  | .ok updated => updated
  | .error _ => object

/-- Performs a history of writes, the earliest first. -/
def performAll (object : Val) (ws : List ListWrite) : Val :=
  ws.foldl perform object

theorem performAll_append (object : Val) (ws : List ListWrite) (w : ListWrite) :
    performAll object (ws ++ [w]) = perform (performAll object ws) w :=
  List.foldl_concat perform object w ws

/-- The write is not refused and sets the item at an index. -/
def SetsAt (w : ListWrite) (index : ℕ) : Prop :=
  index < 2 ^ 20 ∧ w.key.Denotes index

instance (w : ListWrite) (index : ℕ) : Decidable (w.SetsAt index) :=
  inferInstanceAs (Decidable (_ ∧ _))

/-- Some write of a history sets the item at an index. -/
def WrittenAt (ws : List ListWrite) (index : ℕ) : Prop :=
  ∃ w ∈ ws, w.SetsAt index

/-- The last write of a history at an index sets it to a value. -/
def LastWrittenAt (ws : List ListWrite) (index : ℕ) (value : Val) : Prop :=
  ∃ earlier w later, ws = earlier ++ w :: later ∧ w.SetsAt index ∧ w.value = value ∧
    ∀ w' ∈ later, ¬ w'.SetsAt index

theorem SetsAt.unique (hindex : w.SetsAt index) (hi : w.SetsAt i) : index = i :=
  Int.ofNat_inj.mp (hindex.2.unique hi.2)

theorem writtenAt_append : WrittenAt (ws ++ [w]) i ↔ WrittenAt ws i ∨ w.SetsAt i := by
  simp [WrittenAt, or_and_right, exists_or]

/-- The last write at an index is the last one of the history, or that of the history before. -/
theorem LastWrittenAt.cases_append (h : LastWrittenAt (ws ++ [w]) i value) :
    w.SetsAt i ∧ w.value = value ∨ ¬ w.SetsAt i ∧ LastWrittenAt ws i value := by
  obtain ⟨earlier, w₀, later, heq, hsets, hvalue, hlater⟩ := h
  rcases List.eq_nil_or_concat later with rfl | ⟨later, w', rfl⟩
  · obtain ⟨rfl, hw⟩ := List.append_inj' heq rfl
    obtain rfl := List.singleton_inj.mp hw
    exact .inl ⟨hsets, hvalue⟩
  · rw [List.concat_eq_append] at hlater heq
    rw [← List.cons_append, ← List.append_assoc] at heq
    obtain ⟨rfl, hw⟩ := List.append_inj' heq rfl
    obtain rfl := List.singleton_inj.mp hw
    simp only [List.mem_append, List.mem_singleton, or_imp, forall_and, forall_eq] at hlater
    exact .inr ⟨hlater.2, earlier, w₀, later, rfl, hsets, hvalue, hlater.1⟩

/-! ### One write -/

theorem perform_of_setsAt (h : w.SetsAt index) :
    perform (.list old items) w = .list w.identity (Val.setItem items index w.value) := by
  rw [perform, Val.setProperty_list_of_denotes w.isNumber h.1 h.2]

theorem perform_of_refused (h : ∀ i, ¬ w.SetsAt i) :
    perform (.list old items) w = .list old items := by
  obtain ⟨refusal, herror⟩ : ∃ refusal,
      (Val.list old items).setProperty w.identity w.key w.value = .error refusal :=
    (Val.setProperty_list_eq_error_iff w.isNumber).mpr fun ⟨i, hi⟩ => h i hi
  rw [perform, herror]

/-- The items that a history of writes leaves. There are no more of them than were written, and
an item that was skipped is undefined. -/
structure Holds (ws : List ListWrite) (items : List Val) : Prop where
  bounded : items.length ≤ 2 ^ 20
  written {i : ℕ} : WrittenAt ws i → i < items.length
  greatest {i : ℕ} : items.length = i + 1 → WrittenAt ws i
  last {i : ℕ} {value : Val} : LastWrittenAt ws i value → items[i]?.getD .undefined = value
  skipped {i : ℕ} : ¬ WrittenAt ws i → items[i]?.getD .undefined = .undefined

namespace Holds

theorem nil : Holds [] [] where
  bounded := Nat.zero_le _
  written := by simp [WrittenAt]
  greatest := by simp
  last := by simp [LastWrittenAt]
  skipped := by simp

/-- A refused write leaves the items of a history. -/
theorem refused (hitems : Holds ws items) (h : ∀ i, ¬ w.SetsAt i) : Holds (ws ++ [w]) items where
  bounded := hitems.bounded
  written hwritten := hitems.written ((writtenAt_append.mp hwritten).resolve_right (h _))
  greatest hlength := writtenAt_append.mpr (.inl (hitems.greatest hlength))
  last hlast := by
    rcases hlast.cases_append with ⟨hsets, -⟩ | ⟨-, hlast⟩
    · exact absurd hsets (h _)
    · exact hitems.last hlast
  skipped hskipped := hitems.skipped fun hwritten => hskipped (writtenAt_append.mpr (.inl hwritten))

/-- A write that is not refused sets one item of a history. -/
theorem setItem (hitems : Holds ws items) (h : w.SetsAt index) :
    Holds (ws ++ [w]) (Val.setItem items index w.value) where
  bounded := by
    rw [Val.length_setItem]
    exact Nat.max_le.mpr ⟨hitems.bounded, h.1⟩
  written hwritten := by
    rw [Val.length_setItem]
    rcases writtenAt_append.mp hwritten with hbefore | hsets
    · have hlt := hitems.written hbefore
      omega
    · have heq := hsets.unique h
      omega
  greatest {i} hlength := by
    rw [Val.length_setItem] at hlength
    rcases Nat.lt_or_ge index items.length with hlow | hhigh
    · exact writtenAt_append.mpr (.inl (hitems.greatest (by omega)))
    · obtain rfl : index = i := by omega
      exact writtenAt_append.mpr (.inr h)
  last {i} _ hlast := by
    rw [Val.getD_setItem]
    rcases hlast.cases_append with ⟨hsets, hvalue⟩ | ⟨hother, hlast⟩
    · rw [if_pos (hsets.unique h), hvalue]
    · rw [if_neg (by rintro rfl; exact hother h)]
      exact hitems.last hlast
  skipped {i} hskipped := by
    rw [writtenAt_append, not_or] at hskipped
    rw [Val.getD_setItem, if_neg (by rintro rfl; exact hskipped.2 h)]
    exact hitems.skipped hskipped.1

/-- **One write** leaves the items of the history with the write. -/
theorem perform (hitems : Holds ws items) (old : ℕ) (w : ListWrite) :
    ∃ last updated, ListWrite.perform (.list old items) w = .list last updated ∧
      Holds (ws ++ [w]) updated := by
  by_cases h : ∃ index, w.SetsAt index
  · obtain ⟨index, hsets⟩ := h
    exact ⟨_, _, perform_of_setsAt hsets, hitems.setItem hsets⟩
  · have hrefused : ∀ i, ¬ w.SetsAt i := not_exists.mp h
    exact ⟨_, _, perform_of_refused hrefused, hitems.refused hrefused⟩

/-- The length is that of an array up to the greatest index that was written. -/
theorem length_eq (hitems : Holds ws items) :
    items.length = 0 ∧ (∀ i, ¬ WrittenAt ws i) ∨
      ∃ i, IsGreatest {i | WrittenAt ws i} i ∧ items.length = i + 1 := by
  rcases hlength : items.length with _ | i
  · refine .inl ⟨rfl, fun i hwritten => ?_⟩
    have hlt := hitems.written hwritten
    omega
  · refine .inr ⟨i, ⟨hitems.greatest hlength, fun j hwritten => ?_⟩, rfl⟩
    have hlt := hitems.written hwritten
    omega

end Holds

/-- **Every history** leaves its items, by induction on the writes from the last one back. -/
theorem holds_performAll (identity : ℕ) (ws : List ListWrite) :
    ∃ last items, performAll (.list identity []) ws = .list last items ∧ Holds ws items := by
  induction ws using List.reverseRecOn with
  | nil => exact ⟨identity, [], rfl, Holds.nil⟩
  | append_singleton ws w ih =>
      obtain ⟨last, items, hlist, hitems⟩ := ih
      rw [performAll_append, hlist]
      exact hitems.perform last w

end ListWrite

namespace Val

open ListWrite (performAll WrittenAt LastWrittenAt)

/-- **Lists are bounded arrays.** After every history of writes under numbers to an empty list:
* the length is one more than the greatest index that was written, and at most `2 ^ 20`;
* the next write is refused just if its key denotes no index below `2 ^ 20`, and then it changes
  nothing;
* under a number that denotes an index the value is read that was last written there, and
  undefined is read where nothing was written, or where the number denotes no index. -/
theorem lists_are_bounded_arrays (identity : ℕ) (ws : List ListWrite) :
    ∃ last items, performAll (list identity []) ws = list last items ∧
      (items.length = 0 ∧ (∀ i, ¬ WrittenAt ws i) ∨
        ∃ i, IsGreatest {i | WrittenAt ws i} i ∧ items.length = i + 1) ∧
      items.length ≤ 2 ^ 20 ∧
      (∃ n, (list last items).getProperty (str "length") = int n ∧ n.toInt = items.length) ∧
      (∀ w : ListWrite,
        ((∃ refusal, (list last items).setProperty w.identity w.key w.value = .error refusal) ↔
          ¬ ∃ i : ℕ, i < 2 ^ 20 ∧ w.key.Denotes i) ∧
        ((¬ ∃ i : ℕ, i < 2 ^ 20 ∧ w.key.Denotes i) →
          performAll (list identity []) (ws ++ [w]) = list last items)) ∧
      ∀ key : Val, key.isNumber = true →
        (∀ (i : ℕ) value, key.Denotes i → LastWrittenAt ws i value →
          (list last items).getProperty key = value) ∧
        ((∀ i : ℕ, key.Denotes i → ¬ WrittenAt ws i) →
          (list last items).getProperty key = undefined) := by
  obtain ⟨last, items, hlist, hitems⟩ := ListWrite.holds_performAll identity ws
  have hbounded := hitems.bounded
  refine ⟨last, items, hlist, hitems.length_eq, hbounded, ⟨_, rfl, ?_⟩, fun w => ⟨?_, ?_⟩,
    fun key hkey => ⟨fun i value hdenotes hlast => ?_, fun hskipped => ?_⟩⟩
  · exact Int64.toInt_ofNat_of_lt (by omega)
  · exact setProperty_list_eq_error_iff w.isNumber
  · intro hrefused
    rw [ListWrite.performAll_append, hlist]
    exact ListWrite.perform_of_refused (not_exists.mp hrefused)
  · rw [getProperty_list_of_denotes (by omega) hkey hdenotes]
    exact hitems.last hlast
  · by_cases hdenotes : ∃ i : ℕ, key.Denotes i
    · obtain ⟨i, hi⟩ := hdenotes
      rw [getProperty_list_of_denotes (by omega) hkey hi]
      exact hitems.skipped (hskipped i hi)
    · exact getProperty_list_of_not_denotes hkey (not_exists.mp hdenotes)

/-- Writes at both ends of a list of the greatest length, and four that are refused. -/
def bothEnds : List ListWrite :=
  [⟨1, float ⟨0x412ffffe00000000⟩, int 1, rfl⟩, ⟨2, int 0x100000, int 2, rfl⟩,
    ⟨3, float Binary64.nan, int 3, rfl⟩, ⟨4, float ⟨0x3fe0000000000000⟩, int 4, rfl⟩,
    ⟨5, int (-1), int 5, rfl⟩, ⟨6, float (Binary64.zero true), int 6, rfl⟩,
    ⟨7, int 0xfffff, null, rfl⟩]

theorem lists_are_bounded_arrays_bothEnds :
    ∃ last items, performAll (list 0 []) bothEnds = list last items ∧ items.length = 2 ^ 20 ∧
      (list last items).getProperty (int 0) = int 6 ∧
      (list last items).getProperty (float ⟨0x412ffffe00000000⟩) = null ∧
      (list last items).getProperty (int 1) = undefined ∧
      ∃ refusal, (list last items).setProperty 8 (float (Binary64.infinity false)) null =
        .error refusal := by
  obtain ⟨last, items, hlist, hlength, -, -, hwrite, hread⟩ := lists_are_bounded_arrays 0 bothEnds
  have hend : WrittenAt bothEnds (2 ^ 20 - 1) :=
    ⟨⟨7, int 0xfffff, null, rfl⟩, by simp [bothEnds], by decide⟩
  refine ⟨last, items, hlist, ?_, (hread (int 0) rfl).1 0 _ rfl ?_,
    (hread (float ⟨0x412ffffe00000000⟩) rfl).1 (2 ^ 20 - 1) _ (by decide +kernel) ?_,
    (hread (int 1) rfl).2 ?_, (hwrite ⟨8, float (Binary64.infinity false), null, rfl⟩).1.mpr ?_⟩
  · rcases hlength with ⟨-, hnone⟩ | ⟨i, ⟨⟨w, _, hbound, _⟩, hgreatest⟩, hlength⟩
    · exact absurd hend (hnone _)
    · have hle : 2 ^ 20 - 1 ≤ i := hgreatest hend
      omega
  · exact ⟨bothEnds.take 5, _, bothEnds.drop 6, rfl, by decide +kernel, rfl, by decide⟩
  · exact ⟨bothEnds.take 6, _, [], rfl, by decide, rfl, nofun⟩
  · rintro i (hone : (1 : ℤ) = i)
    obtain rfl : i = 1 := by omega
    rintro ⟨w, hw, hsets⟩
    revert w
    decide +kernel
  · rintro ⟨i, -, hfinite, -⟩
    exact absurd hfinite (by decide)

end Val

end TaggedBytecode
