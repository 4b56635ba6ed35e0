import Mathlib
import TaggedBytecode.Proofs.Json.RoundTrip
import TaggedBytecode.Text.Blank
import TaggedBytecode.Text.Integer

/-!
# What Integer Numerals Stand For

A list of characters **spells** an integer if it is some decimal digits, the most significant one
first, with or without a sign before them. Leading zeros do not matter. A numeral is read as the
integer that it spells, if 64 bits hold that; everything else is refused.

## Main definitions

* `Text.Spells` — the integer that a numeral stands for.

## Main results

* `Text.int64?_eq_ok_iff` — which numerals are read.
* `Text.spells_toString` — an integer is written as a numeral that stands for it.
* `Text.spells_trimChars_iff` — the blanks around a numeral.
-/

namespace TaggedBytecode.Text

/-! ### Numerals -/

/-- Some decimal digits, and no other character. -/
def IsDecimal (ds : List Char) : Prop :=
  ds ≠ [] ∧ ∀ c ∈ ds, c.isDigit = true

instance (ds : List Char) : Decidable (IsDecimal ds) :=
  inferInstanceAs (Decidable (_ ∧ _))

/-- The integer that a numeral **spells**. -/
inductive Spells : List Char → ℤ → Prop
  | plain {ds : List Char} : IsDecimal ds → Spells ds (Nat.ofDigitChars 10 ds 0)
  | plus {ds : List Char} : IsDecimal ds → Spells ('+' :: ds) (Nat.ofDigitChars 10 ds 0)
  | minus {ds : List Char} : IsDecimal ds → Spells ('-' :: ds) (-Nat.ofDigitChars 10 ds 0)

variable {cs ds : List Char} {m n : ℤ}

theorem not_isDecimal_cons {c : Char} (hc : c.isDigit = false) (ds : List Char) :
    ¬ IsDecimal (c :: ds) := fun h => by
  have hdigit := h.2 c List.mem_cons_self
  rw [hc] at hdigit
  cases hdigit

theorem spells_plus_iff : Spells ('+' :: ds) n ↔ IsDecimal ds ∧ n = Nat.ofDigitChars 10 ds 0 := by
  constructor
  · rintro (h | h | h)
    · exact absurd h (not_isDecimal_cons rfl ds)
    · exact ⟨h, rfl⟩
  · rintro ⟨h, rfl⟩
    exact .plus h

theorem spells_minus_iff :
    Spells ('-' :: ds) n ↔ IsDecimal ds ∧ n = -Nat.ofDigitChars 10 ds 0 := by
  constructor
  · rintro (h | h | h)
    · exact absurd h (not_isDecimal_cons rfl ds)
    · exact ⟨h, rfl⟩
  · rintro ⟨h, rfl⟩
    exact .minus h

theorem spells_decimal_iff (hplus : ∀ ds, cs ≠ '+' :: ds) (hminus : ∀ ds, cs ≠ '-' :: ds) :
    Spells cs n ↔ IsDecimal cs ∧ n = Nat.ofDigitChars 10 cs 0 := by
  constructor
  · rintro (h | h | h)
    · exact ⟨h, rfl⟩
    · exact absurd rfl (hplus _)
    · exact absurd rfl (hminus _)
  · rintro ⟨h, rfl⟩
    exact .plain h

/-- A numeral spells one integer only. -/
theorem Spells.unique (hm : Spells cs m) (hn : Spells cs n) : m = n := by
  cases hm with
  | plain h =>
      have hsign (c : Char) (hc : c.isDigit = false) (ds : List Char) : cs ≠ c :: ds := by
        rintro rfl
        exact not_isDecimal_cons hc ds h
      exact ((spells_decimal_iff (hsign '+' rfl) (hsign '-' rfl)).mp hn).2.symm
  | plus h => exact (spells_plus_iff.mp hn).2.symm
  | minus h => exact (spells_minus_iff.mp hn).2.symm

/-! ### Reading -/

/-- More digits do not make a number smaller. -/
theorem le_ofDigitChars (ds : List Char) (n : ℕ) : n ≤ Nat.ofDigitChars 10 ds n := by
  induction ds generalizing n with
  | nil => exact Nat.le_of_eq Nat.ofDigitChars_nil.symm
  | cons c ds ih =>
      rw [Nat.ofDigitChars_cons]
      exact le_trans (by omega) (ih _)

/-- **Digits are read** if they are digits and the number does not exceed the limit. Induction on
the digits; the prefixes stay below the limit because they are no greater than the number. -/
theorem readDigits_eq_ok_iff {limit k v : ℕ} (overflow : IntegerError) (hk : k ≤ limit) :
    readDigits limit overflow k ds = .ok v ↔
      (∀ c ∈ ds, c.isDigit = true) ∧ v = Nat.ofDigitChars 10 ds k ∧ v ≤ limit := by
  induction ds generalizing k with
  | nil =>
      rw [readDigits, Nat.ofDigitChars_nil, Except.ok.injEq]
      constructor
      · rintro rfl
        exact ⟨nofun, rfl, hk⟩
      · exact fun h => h.2.1.symm
  | cons c ds ih =>
      rw [readDigits, Nat.ofDigitChars_cons, List.forall_mem_cons]
      split
      · rename_i hc
        have hle := le_ofDigitChars ds (10 * k + (c.toNat - '0'.toNat))
        dsimp only
        split
        · refine iff_of_false nofun ?_
          rintro ⟨-, rfl, hlimit⟩
          omega
        · rename_i hnext
          rw [ih (Nat.le_of_not_lt hnext), and_iff_right hc]
      · rename_i hc
        exact iff_of_false nofun fun h => hc h.1.1

/-- Reading the digits of a numeral and then giving them a sign. -/
theorem map_readDigits_eq_ok_iff {limit : ℕ} (overflow : IntegerError) (hds : ds ≠ [])
    (sign : ℕ → ℤ) :
    (readDigits limit overflow 0 ds).map sign = .ok n ↔
      IsDecimal ds ∧ n = sign (Nat.ofDigitChars 10 ds 0) ∧ Nat.ofDigitChars 10 ds 0 ≤ limit := by
  have hread (v : ℕ) : readDigits limit overflow 0 ds = .ok v ↔ _ :=
    readDigits_eq_ok_iff overflow limit.zero_le
  rw [IsDecimal, and_iff_right hds]
  cases hdigits : readDigits limit overflow 0 ds with
  | error e =>
      refine iff_of_false nofun fun ⟨hdigit, _, hlimit⟩ => ?_
      rw [(hread _).mpr ⟨hdigit, rfl, hlimit⟩] at hdigits
      cases hdigits
  | ok v =>
      obtain ⟨hdigit, rfl, hlimit⟩ := (hread v).mp hdigits
      rw [Except.map, Except.ok.injEq, eq_comm]
      exact ⟨fun h => ⟨hdigit, h, hlimit⟩, fun h => h.2.1⟩

theorem map_neg_natCast (read : Except IntegerError ℕ) :
    Except.map (fun n : ℤ => -n) (do let v ← read; pure (v : ℤ)) =
      Except.map (fun v : ℕ => -(v : ℤ)) read := by
  cases read <;> rfl

/-- **Which numerals are read**: those that spell an integer of 64 bits, as this integer. -/
theorem int64?_eq_ok_iff : int64? cs = .ok n ↔ Spells cs n ∧ -2 ^ 63 ≤ n ∧ n < 2 ^ 63 := by
  unfold int64?
  split
  · refine iff_of_false nofun fun ⟨h, _⟩ => ?_
    cases h with | plain h => exact h.1 rfl
  · exact iff_of_false nofun fun ⟨h, _⟩ => (spells_plus_iff.mp h).1.1 rfl
  · exact iff_of_false nofun fun ⟨h, _⟩ => (spells_minus_iff.mp h).1.1 rfl
  · rename_i ds hds
    rw [map_neg_natCast, map_readDigits_eq_ok_iff _ (fun h => hds h), spells_minus_iff, and_assoc]
    refine and_congr_right fun _ => and_congr_right fun hn => ?_
    omega
  · rename_i ds hds
    rw [map_readDigits_eq_ok_iff _ (fun h => hds h), spells_plus_iff, and_assoc]
    refine and_congr_right fun _ => and_congr_right fun hn => ?_
    rw [Int.ofNat_eq_natCast] at hn
    omega
  · rename_i hne _ _ hminus hplus
    rw [map_readDigits_eq_ok_iff _ (fun h => hne h), spells_decimal_iff hplus hminus, and_assoc]
    refine and_congr_right fun _ => and_congr_right fun hn => ?_
    rw [Int.ofNat_eq_natCast] at hn
    omega

/-! ### Writing -/

theorem isDecimal_toDigits (n : ℕ) : IsDecimal (Nat.toDigits 10 n) :=
  ⟨Nat.toDigits_ne_nil, Json.isDigit_of_mem_toDigits n⟩

/-- **An integer is written as a numeral that spells it.** -/
theorem spells_toString (n : ℤ) : Spells (toString n).toList n := by
  have hvalue : Nat.ofDigitChars 10 (Nat.toDigits 10 n.natAbs) 0 = n.natAbs :=
    Nat.ofDigitChars_ten_toDigits
  rw [Json.toList_toString]
  split
  · refine spells_minus_iff.mpr ⟨isDecimal_toDigits _, ?_⟩
    rw [hvalue]
    omega
  · have hplain := Spells.plain (isDecimal_toDigits n.natAbs)
    rwa [hvalue, Int.natAbs_of_nonneg (by omega)] at hplain

/-! ### Blanks -/

theorem isBlank_eq_false_of_isDigit {c : Char} (hc : c.isDigit = true) : isBlank c = false := by
  simp only [Char.isDigit, ge_iff_le, UInt32.le_iff_toNat_le, Bool.and_eq_true,
    decide_eq_true_eq] at hc
  have hlow : 48 ≤ c.toNat := hc.1
  have hhigh : c.toNat ≤ 57 := hc.2
  simp only [isBlank, blankRanges, List.any_cons, List.any_nil, Bool.or_false,
    Bool.or_eq_false_iff, Bool.and_eq_false_iff, decide_eq_false_iff_not]
  omega

/-- No character of a numeral is blank. -/
theorem Spells.isBlank_eq_false (h : Spells cs n) : ∀ c ∈ cs, isBlank c = false := by
  rcases h with h | h | h
  · exact fun c hc => isBlank_eq_false_of_isDigit (h.2 c hc)
  · exact List.forall_mem_cons.mpr ⟨by decide, fun c hc => isBlank_eq_false_of_isDigit (h.2 c hc)⟩
  · exact List.forall_mem_cons.mpr ⟨by decide, fun c hc => isBlank_eq_false_of_isDigit (h.2 c hc)⟩

theorem Spells.ne_nil (h : Spells cs n) : cs ≠ [] := by
  rcases h with h | h | h
  · exact h.1
  · exact List.cons_ne_nil _ _
  · exact List.cons_ne_nil _ _

/-- Blanks before a character that is none are dropped, and nothing else is. -/
theorem dropWhile_isBlank_append {left middle : List Char} (right : List Char)
    (hleft : ∀ c ∈ left, isBlank c = true) (hmiddle : ∀ c ∈ middle, isBlank c = false)
    (hne : middle ≠ []) : (left ++ middle ++ right).dropWhile isBlank = middle ++ right := by
  obtain ⟨c, rest, rfl⟩ := List.exists_cons_of_ne_nil hne
  rw [List.append_assoc, List.dropWhile_append_of_pos hleft, List.cons_append,
    List.dropWhile_cons_of_neg (by simp [hmiddle c List.mem_cons_self])]

/-- What has no blanks stays when the blanks around it are dropped. -/
theorem trimChars_append {left middle right : List Char} (hleft : ∀ c ∈ left, isBlank c = true)
    (hmiddle : ∀ c ∈ middle, isBlank c = false) (hright : ∀ c ∈ right, isBlank c = true)
    (hne : middle ≠ []) : trimChars (left ++ middle ++ right) = middle := by
  have hback : (right.reverse ++ middle.reverse ++ []).dropWhile isBlank = middle.reverse ++ [] :=
    dropWhile_isBlank_append [] (by simpa using hright) (by simpa using hmiddle) (by simpa using hne)
  rw [List.append_nil, List.append_nil] at hback
  rw [trimChars, dropWhile_isBlank_append right hleft hmiddle hne, List.reverse_append, hback,
    List.reverse_reverse]

/-- What is dropped at the ends is blank. -/
theorem exists_trimChars (cs : List Char) : ∃ left right, cs = left ++ trimChars cs ++ right ∧
    (∀ c ∈ left, isBlank c = true) ∧ ∀ c ∈ right, isBlank c = true := by
  refine ⟨cs.takeWhile isBlank, ((cs.dropWhile isBlank).reverse.takeWhile isBlank).reverse, ?_,
    fun c hc => List.mem_takeWhile_imp hc,
    fun c hc => List.mem_takeWhile_imp (List.mem_reverse.mp hc)⟩
  rw [trimChars, List.append_assoc, ← List.reverse_append, List.takeWhile_append_dropWhile,
    List.reverse_reverse, List.takeWhile_append_dropWhile]

/-- **A numeral is read without the blanks around it.** -/
theorem spells_trimChars_iff : Spells (trimChars cs) n ↔
    ∃ left numeral right, cs = left ++ numeral ++ right ∧ (∀ c ∈ left, isBlank c = true) ∧
      (∀ c ∈ right, isBlank c = true) ∧ Spells numeral n := by
  constructor
  · intro h
    obtain ⟨left, right, hcs, hleft, hright⟩ := exists_trimChars cs
    exact ⟨left, _, right, hcs, hleft, hright, h⟩
  · rintro ⟨left, numeral, right, rfl, hleft, hright, h⟩
    rwa [trimChars_append hleft h.isBlank_eq_false hright h.ne_nil]

end TaggedBytecode.Text
