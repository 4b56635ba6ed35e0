import Mathlib.Algebra.BigOperators.Fin
import Mathlib.Algebra.BigOperators.Ring.Finset
import Mathlib.Tactic.Ring
import TaggedBytecode.Stream.Alphabet

/-!
# Numerals

A stream is a sequence of **numerals**, one for each slot. A numeral is a run of continuation
digits and the digit that ends it, and its **value** is an exact number: the continuation digit
at a place counts its index modulo the base, plus the base, in that power of the radix, and the
last digit counts its index in the power after them.

Any digit may stand for several indices modulo the base, so in general two numerals can have
one value. Where the radix does not exceed the base they cannot: the spelling of a number is
then the only one.

## Main definitions

* `Alphabet.Numeral`, `Numeral.value`, `Numeral.spelling` — numerals.
* `Alphabet.isFinal` — the digits that end a number.

## Main results

* `Alphabet.ofText_eq_ok_iff` — the alphabets of a text and a base.
* `Alphabet.exists_numerals` — which characters are the spelling of numerals.
* `Numeral.spell_value`, `Alphabet.exists_value_eq` — numerals are what numbers are spelled by.
-/

namespace TaggedBytecode

namespace Alphabet

/-! ### Alphabets of texts -/

theorem duplicate?_eq_none {seen cs : List Char} {position : Nat} (hcs : cs.Nodup)
    (hseen : ∀ c ∈ cs, c ∉ seen) : duplicate? seen position cs = none := by
  induction cs generalizing seen position with
  | nil => rfl
  | cons c rest ih =>
      obtain ⟨hc, hrest⟩ := List.nodup_cons.mp hcs
      rw [duplicate?, if_neg (hseen c List.mem_cons_self)]
      refine ih hrest fun d hd => ?_
      have hne : d ≠ c := fun h => hc (h ▸ hd)
      simp [hne, hseen d (List.mem_cons_of_mem _ hd)]

/-- A text and a base have an alphabet just if there is one with these digits and this base. -/
theorem ofText_eq_ok_iff {text : String} {base : Nat} {a : Alphabet} :
    ofText text base = .ok a ↔ a.digits = text.toList ∧ a.base = base := by
  constructor
  · intro h
    rw [ofText] at h
    split at h
    · split at h
      · cases h
      · obtain rfl := Except.ok.inj h
        exact ⟨rfl, rfl⟩
    · cases h
  · rintro ⟨hdigits, rfl⟩
    obtain ⟨digits, base, hpos, hlt, hnodup⟩ := a
    obtain rfl : digits = text.toList := hdigits
    rw [ofText, dif_pos ⟨hpos, hlt⟩]
    have hnone : duplicate? [] 0 text.toList = none := duplicate?_eq_none hnodup (by simp)
    split
    · rename_i hsome
      rw [hnone] at hsome
      cases hsome
    · rfl

variable {a : Alphabet}

/-! ### Digits and their indices -/

theorem index?_eq_some_iff {c : Char} {i : Nat} : a.index? c = some i ↔ a.digits[i]? = some c := by
  rw [index?, List.findIdx?_eq_some_iff_getElem, List.getElem?_eq_some_iff]
  constructor
  · rintro ⟨hi, hc, -⟩
    exact ⟨hi, by simpa using hc⟩
  · rintro ⟨hi, hc⟩
    refine ⟨hi, by simpa using hc, fun j hj hd => ?_⟩
    have hsame : a.digits[j] = a.digits[i] := (by simpa using hd : a.digits[j] = c).trans hc.symm
    exact absurd (a.nodup.getElem_inj_iff.mp hsame) (Nat.ne_of_lt hj)

theorem index?_eq_none_iff {c : Char} : a.index? c = none ↔ c ∉ a.digits := by
  rw [index?, List.findIdx?_eq_none_iff]
  constructor
  · intro h hc
    simpa using h c hc
  · rintro h d hd
    exact beq_false_of_ne fun hdc => h (hdc ▸ hd)

theorem exists_index?_of_mem {c : Char} (h : c ∈ a.digits) : ∃ i, a.index? c = some i := by
  cases hi : a.index? c with
  | none => exact absurd h (index?_eq_none_iff.mp hi)
  | some i => exact ⟨i, rfl⟩

theorem index?_digit {i : Nat} (h : i < a.length) : a.index? (a.digit i) = some i := by
  rw [index?_eq_some_iff, digit, List.getElem?_eq_getElem h, Option.getD_some]

theorem index?_digit_of_lt_base {i : Nat} (h : i < a.base) : a.index? (a.digit i) = some i :=
  index?_digit (Nat.lt_trans h a.base_lt)

theorem lt_length_of_index? {c : Char} {i : Nat} (h : a.index? c = some i) : i < a.length := by
  obtain ⟨hi, -⟩ := List.getElem?_eq_some_iff.mp (index?_eq_some_iff.mp h)
  exact hi

theorem digit_of_index? {c : Char} {i : Nat} (h : a.index? c = some i) : a.digit i = c := by
  rw [digit, index?_eq_some_iff.mp h, Option.getD_some]

theorem mem_of_index? {c : Char} {i : Nat} (h : a.index? c = some i) : c ∈ a.digits :=
  List.mem_of_getElem? (index?_eq_some_iff.mp h)

/-- Whether a character is a digit that ends a number. -/
def isFinal (a : Alphabet) (c : Char) : Bool := (a.index? c).any (· < a.base)

theorem isFinal_of_index? {c : Char} {i : Nat} (h : a.index? c = some i) :
    a.isFinal c = decide (i < a.base) := by
  rw [isFinal, h, Option.any_some]

/-! ### Numerals -/

/-- A spelled number: continuation digits and the digit that ends it, by their indices. -/
structure Numeral (a : Alphabet) where
  continued : List Nat
  last : Nat
  continues : ∀ i ∈ continued, a.base ≤ i ∧ i < a.length
  ends : last < a.base

/-- The number that continuation digits and a last digit stand for. -/
def number (a : Alphabet) (continued : List Nat) (last : Nat) : Nat :=
  ∑ place : Fin continued.length, (continued[place] % a.base + a.base) * a.radix ^ (place : Nat) +
    last * a.radix ^ continued.length

@[simp]
theorem number_nil (last : Nat) : a.number [] last = last := by
  simp [number]

/-- The first digit counts as it is, and the rest counts in the radix. -/
theorem number_cons (i : Nat) (continued : List Nat) (last : Nat) :
    a.number (i :: continued) last =
      (i % a.base + a.base) + a.radix * a.number continued last := by
  have hrest : ∀ place : Fin continued.length,
      (continued[place] % a.base + a.base) * a.radix ^ ((place : Nat) + 1) =
        a.radix * ((continued[place] % a.base + a.base) * a.radix ^ (place : Nat)) := by
    intro place
    ring
  simp only [number, List.length_cons, Fin.sum_univ_succ, Fin.getElem_fin, Fin.val_zero,
    Fin.val_succ, List.getElem_cons_zero, List.getElem_cons_succ, pow_zero, mul_one] at hrest ⊢
  simp only [hrest, ← Finset.mul_sum]
  ring

namespace Numeral

/-- The exact number that a numeral stands for. -/
def value (n : a.Numeral) : Nat := a.number n.continued n.last

/-- The characters of a numeral. -/
def spelling (n : a.Numeral) : List Char := n.continued.map a.digit ++ [a.digit n.last]

/-- The numeral of one digit. -/
def single (last : Nat) (h : last < a.base) : a.Numeral where
  continued := []
  last := last
  continues := by simp
  ends := h

/-- A numeral with one more digit in front. -/
def cons (i : Nat) (h : a.base ≤ i ∧ i < a.length) (n : a.Numeral) : a.Numeral where
  continued := i :: n.continued
  last := n.last
  continues := by simpa [h] using n.continues
  ends := n.ends

@[simp]
theorem value_single (last : Nat) (h : last < a.base) : (single last h).value = last :=
  number_nil last

theorem value_cons (i : Nat) (h : a.base ≤ i ∧ i < a.length) (n : a.Numeral) :
    (cons i h n).value = (i % a.base + a.base) + a.radix * n.value :=
  number_cons i _ _

@[simp]
theorem spelling_single (last : Nat) (h : last < a.base) :
    (single last h).spelling = [a.digit last] :=
  rfl

@[simp]
theorem spelling_cons (i : Nat) (h : a.base ≤ i ∧ i < a.length) (n : a.Numeral) :
    (cons i h n).spelling = a.digit i :: n.spelling :=
  rfl

/-- Every numeral is a single digit or has a digit in front. -/
theorem induction {P : a.Numeral → Prop} (single : ∀ last h, P (single last h))
    (cons : ∀ i h n, P n → P (cons i h n)) (n : a.Numeral) : P n := by
  obtain ⟨continued, last, hcontinues, hends⟩ := n
  induction continued with
  | nil => exact single last hends
  | cons i rest ih =>
      exact cons i (hcontinues i List.mem_cons_self) ⟨rest, last, fun j hj =>
        hcontinues j (List.mem_cons_of_mem _ hj), hends⟩ (ih _)

/-- Different numerals are spelled differently. -/
theorem spelling_injective {n m : a.Numeral} (h : n.spelling = m.spelling) : n = m := by
  have indices : ∀ k : a.Numeral,
      k.spelling.map a.index? = (k.continued ++ [k.last]).map some := by
    intro k
    have hcontinued : ∀ i ∈ k.continued, (a.index? ∘ a.digit) i = some i :=
      fun i hi => index?_digit (k.continues i hi).2
    simp only [spelling, List.map_append, List.map_map, List.map_cons, List.map_nil,
      index?_digit_of_lt_base k.ends, List.map_congr_left hcontinued]
  have hsame : (n.continued ++ [n.last]).map some = (m.continued ++ [m.last]).map some := by
    rw [← indices, ← indices, h]
  obtain ⟨hcontinued, hlast⟩ :=
    List.append_inj' (List.map_injective_iff.mpr (Option.some_injective _) hsame) rfl
  obtain ⟨continued, last, hn, hn'⟩ := n
  obtain ⟨continued', last', hm, hm'⟩ := m
  obtain rfl : continued = continued' := hcontinued
  obtain rfl : last = last' := List.singleton_inj.mp hlast
  rfl

end Numeral

/-- Characters of the alphabet of which the last ends a number are the spelling of numerals.
Induction on the characters: a digit that ends a number is a numeral by itself, any other
stands in front of the first numeral of the rest. -/
theorem exists_numerals {cs : List Char} (hdigits : ∀ c ∈ cs, c ∈ a.digits)
    (hlast : ∀ c, cs.getLast? = some c → a.isFinal c) :
    ∃ numerals : List a.Numeral, numerals.flatMap Numeral.spelling = cs := by
  induction cs with
  | nil => exact ⟨[], rfl⟩
  | cons c rest ih =>
      obtain ⟨i, hi⟩ := exists_index?_of_mem (hdigits c List.mem_cons_self)
      have hlength := lt_length_of_index? hi
      obtain ⟨numerals, hrest⟩ := ih (fun d hd => hdigits d (List.mem_cons_of_mem _ hd))
        fun d hd => hlast d (by rw [List.getLast?_cons, hd, Option.getD_some])
      by_cases hbase : i < a.base
      · exact ⟨Numeral.single i hbase :: numerals, by simp [hrest, digit_of_index? hi]⟩
      · cases numerals with
        | nil =>
            -- The rest is empty, so the character in front is the last one.
            obtain rfl : rest = [] := hrest.symm
            have hfinal := hlast c rfl
            rw [isFinal_of_index? hi, decide_eq_true_eq] at hfinal
            exact absurd hfinal hbase
        | cons n numerals =>
            refine ⟨Numeral.cons i ⟨Nat.le_of_not_lt hbase, hlength⟩ n :: numerals, ?_⟩
            rw [List.flatMap_cons] at hrest ⊢
            rw [Numeral.spelling_cons, digit_of_index? hi, List.cons_append, hrest]

/-! ### The numerals of numbers -/

theorem length_eq (a : Alphabet) : a.length = a.base + a.radix := by
  have := a.base_lt
  rw [radix, length]
  omega

/-- Where the radix does not exceed the base, a continuation digit counts its index. -/
theorem mod_base_add_base (h : a.radix ≤ a.base) {i : Nat} (hi : a.base ≤ i ∧ i < a.length) :
    i % a.base + a.base = i := by
  have hlength := a.length_eq
  obtain ⟨e, rfl⟩ := Nat.exists_eq_add_of_le hi.1
  rw [Nat.add_mod_left, Nat.mod_eq_of_lt (by omega), Nat.add_comm]

/-- **Spelling the value of a numeral gives the numeral back.** -/
theorem Numeral.spell_value (h : a.radix ≤ a.base) (n : a.Numeral) :
    a.spell n.value = n.spelling := by
  induction n using Numeral.induction with
  | single last hlast => rw [value_single, spell, if_pos hlast, spelling_single]
  | cons i hi n ih =>
      have hlength := a.length_eq
      obtain ⟨e, rfl⟩ := Nat.exists_eq_add_of_le hi.1
      have he : e < a.radix := by omega
      have hvalue : (cons (a.base + e) hi n).value = a.base + (e + a.radix * n.value) := by
        rw [value_cons, mod_base_add_base h hi, Nat.add_assoc]
      rw [hvalue, spell, if_neg (by omega), Nat.add_sub_cancel_left, Nat.add_mul_mod_self_left,
        Nat.mod_eq_of_lt he, Nat.add_mul_div_left _ _ a.radix_pos, Nat.div_eq_of_lt he,
        Nat.zero_add, ih, spelling_cons]

/-- Where the radix does not exceed the base, different numerals have different values. -/
theorem Numeral.value_injective (h : a.radix ≤ a.base) {n m : a.Numeral}
    (hvalue : n.value = m.value) : n = m :=
  spelling_injective (by rw [← n.spell_value h, hvalue, m.spell_value h])

/-- Every number is the value of a numeral. Strong induction, along the division by which the
number is spelled. -/
theorem exists_value_eq (h : a.radix ≤ a.base) (k : Nat) : ∃ n : a.Numeral, n.value = k := by
  induction k using Nat.strong_induction_on with
  | _ k ih =>
      by_cases hk : k < a.base
      · exact ⟨Numeral.single k hk, Numeral.value_single k hk⟩
      · have hbase := a.base_pos
        have hmod := Nat.mod_lt (k - a.base) a.radix_pos
        have hless : (k - a.base) / a.radix < k :=
          Nat.lt_of_le_of_lt (Nat.div_le_self _ _) (by omega)
        obtain ⟨n, hn⟩ := ih _ hless
        have hi : a.base ≤ a.base + (k - a.base) % a.radix ∧
            a.base + (k - a.base) % a.radix < a.length := by
          rw [a.length_eq]
          omega
        refine ⟨Numeral.cons _ hi n, ?_⟩
        have hdivision := Nat.mod_add_div (k - a.base) a.radix
        rw [Numeral.value_cons, mod_base_add_base h hi, hn]
        omega

end Alphabet

end TaggedBytecode
