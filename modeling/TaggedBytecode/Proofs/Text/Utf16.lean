import Mathlib
import TaggedBytecode.Text.Utf16

/-!
# Assembling UTF-16

Units are assembled into characters from the left, two for a surrogate pair and one otherwise.
No unit is both a high and a low surrogate, so whether a unit belongs to a pair can be told from
its neighbours alone. Hence a cut through some units changes only the unit next to it: a
surrogate whose partner is cut off becomes the replacement character.

A text is assembled from its own units. The other way round, the units of an assembled text are
the units that it was assembled from, except that the **stray** surrogates among them are
replaced. Neither their number nor the text of any slice of them is changed by that.

## Main definitions

* `Text.startsPair` — whether a unit is the first of a surrogate pair.

## Main results

* `Text.units_induction` — units come in pairs and one by one.
* `Text.ofUtf16_utf16Units` — a text is assembled from its units.
* `Text.length_utf16Units_ofUtf16` — an assembled text has as many units as it was made of.
* `Text.ofUtf16_slice` — slices of these units are assembled to the same texts.
-/

namespace TaggedBytecode.Text

/-! ### Pairs and single units -/

/-- Whether a unit in front of others is the first of a surrogate pair. -/
def startsPair (u : UInt16) (rest : List UInt16) : Bool :=
  isHighSurrogate u && rest.head?.any isLowSurrogate

theorem charsOfUnits_pair {u v : UInt16} (hu : isHighSurrogate u = true)
    (hv : isLowSurrogate v = true) (rest : List UInt16) :
    charsOfUnits (u :: v :: rest) = ofPair u v :: charsOfUnits rest := by
  simp [charsOfUnits, hu, hv]

theorem charsOfUnits_single {u : UInt16} {rest : List UInt16} (h : startsPair u rest = false) :
    charsOfUnits (u :: rest) = ofUnit u :: charsOfUnits rest := by
  cases rest with
  | nil => rfl
  | cons v rest =>
      rw [startsPair, List.head?_cons, Option.any_some] at h
      rw [charsOfUnits, if_neg (by simp [h])]

/-- A low surrogate is no high one, so it starts no pair. -/
theorem startsPair_of_low {u : UInt16} (h : isLowSurrogate u = true) (rest : List UInt16) :
    startsPair u rest = false := by
  simp only [isLowSurrogate, Bool.and_eq_true, decide_eq_true_eq] at h
  have hu : isHighSurrogate u = false := by
    simp only [isHighSurrogate, Bool.and_eq_false_iff, decide_eq_false_iff_not]
    omega
  rw [startsPair, hu, Bool.false_and]

/-- A unit that starts no pair in front of some units starts none in front of fewer. -/
theorem startsPair_take {u : UInt16} {rest : List UInt16} (h : startsPair u rest = false)
    (n : Nat) : startsPair u (rest.take n) = false := by
  cases n with
  | zero => simp [startsPair]
  | succ n =>
      cases rest with
      | nil => simpa using h
      | cons v rest => exact h

/-- **Units come in pairs and one by one.** -/
theorem units_induction {P : List UInt16 → Prop} (nil : P [])
    (pair : ∀ u v rest, isHighSurrogate u = true → isLowSurrogate v = true → P rest →
      P (u :: v :: rest))
    (single : ∀ u rest, startsPair u rest = false → P rest → P (u :: rest))
    (units : List UInt16) : P units := by
  fun_induction charsOfUnits units with
  | case1 => exact nil
  | case2 u => exact single u [] (by simp [startsPair]) nil
  | case3 u v rest hpair ih =>
      obtain ⟨hu, hv⟩ := Bool.and_eq_true_iff.mp hpair
      exact pair u v rest hu hv ih
  | case4 u v rest hpair ih => exact single u (v :: rest) (Bool.eq_false_iff.mpr hpair) ih

/-! ### Units of characters -/

/-- The units of a character, in front of any others, are assembled to the character. -/
theorem charsOfUnits_unitsOfChar_append (c : Char) (rest : List UInt16) :
    charsOfUnits (unitsOfChar c ++ rest) = c :: charsOfUnits rest := by
  have hvalid : c.toNat < 0xd800 ∨ 0xdfff < c.toNat ∧ c.toNat < 0x110000 := c.valid
  rw [unitsOfChar]
  split
  · rename_i hplane
    have hunit : (UInt16.ofNat c.toNat).toNat = c.toNat := UInt16.toNat_ofNat_of_lt' hplane
    have hhigh : isHighSurrogate (UInt16.ofNat c.toNat) = false := by
      simp only [isHighSurrogate, hunit, Bool.and_eq_false_iff, decide_eq_false_iff_not]
      omega
    have hlow : isLowSurrogate (UInt16.ofNat c.toNat) = false := by
      simp only [isLowSurrogate, hunit, Bool.and_eq_false_iff, decide_eq_false_iff_not]
      omega
    rw [List.singleton_append, charsOfUnits_single (by rw [startsPair, hhigh, Bool.false_and]),
      ofUnit, hhigh, hlow, Bool.or_false, if_neg Bool.false_ne_true, hunit, Char.ofNat_toNat]
  · have hhigh : (UInt16.ofNat (0xd800 + (c.toNat - 0x10000) / 0x400)).toNat =
        0xd800 + (c.toNat - 0x10000) / 0x400 :=
      UInt16.toNat_ofNat_of_lt' (by rw [UInt16.size]; omega)
    have hlow : (UInt16.ofNat (0xdc00 + (c.toNat - 0x10000) % 0x400)).toNat =
        0xdc00 + (c.toNat - 0x10000) % 0x400 :=
      UInt16.toNat_ofNat_of_lt' (by rw [UInt16.size]; omega)
    have hpair : ofPair (UInt16.ofNat (0xd800 + (c.toNat - 0x10000) / 0x400))
        (UInt16.ofNat (0xdc00 + (c.toNat - 0x10000) % 0x400)) = c := by
      have hnumber : 0x10000 + (0xd800 + (c.toNat - 0x10000) / 0x400 - 0xd800) * 0x400 +
          (0xdc00 + (c.toNat - 0x10000) % 0x400 - 0xdc00) = c.toNat := by omega
      rw [ofPair, hhigh, hlow, hnumber, Char.ofNat_toNat]
    simp only [List.cons_append, List.nil_append]
    rw [charsOfUnits_pair, hpair]
    · simp only [isHighSurrogate, hhigh, Bool.and_eq_true, decide_eq_true_eq]
      omega
    · simp only [isLowSurrogate, hlow, Bool.and_eq_true, decide_eq_true_eq]
      omega

/-- **A text is assembled from its units.** -/
theorem ofUtf16_utf16Units (s : String) : ofUtf16 (utf16Units s) = s := by
  have hchars : ∀ cs : List Char, charsOfUnits (cs.flatMap unitsOfChar) = cs := by
    intro cs
    induction cs with
    | nil => rfl
    | cons c cs ih => rw [List.flatMap_cons, charsOfUnits_unitsOfChar_append, ih]
  rw [ofUtf16, utf16Units, hchars, String.ofList_toList]

/-- A surrogate pair is the units of its character. -/
theorem unitsOfChar_ofPair {u v : UInt16} (hu : isHighSurrogate u = true)
    (hv : isLowSurrogate v = true) : unitsOfChar (ofPair u v) = [u, v] := by
  simp only [isHighSurrogate, isLowSurrogate, Bool.and_eq_true, decide_eq_true_eq] at hu hv
  have hvalid : (0x10000 + (u.toNat - 0xd800) * 0x400 + (v.toNat - 0xdc00)).isValidChar :=
    .inr (by omega)
  have hchar : (ofPair u v).toNat =
      0x10000 + (u.toNat - 0xd800) * 0x400 + (v.toNat - 0xdc00) := by
    rw [ofPair, Char.toNat_ofNat, if_pos hvalid]
  rw [unitsOfChar, hchar, if_neg (by omega)]
  simp only [List.cons.injEq, ← UInt16.toNat_inj, UInt16.toNat_ofNat', and_true]
  omega

/-! ### Stray surrogates -/

/-- The unit of what a single unit is assembled to: the unit itself, unless it is a stray
surrogate. -/
theorem exists_unit_ofUnit (u : UInt16) :
    ∃ w, unitsOfChar (ofUnit u) = [w] ∧ isHighSurrogate w = false ∧ ofUnit w = ofUnit u := by
  by_cases hsurrogate : (isHighSurrogate u || isLowSurrogate u) = true
  · rw [ofUnit, if_pos hsurrogate]
    exact ⟨0xfffd, by decide, by decide, by decide⟩
  · refine ⟨u, ?_, ?_, rfl⟩
    · have hlt := u.toNat_lt
      have hbounds := hsurrogate
      simp only [isHighSurrogate, isLowSurrogate, Bool.or_eq_true, Bool.and_eq_true,
        decide_eq_true_eq] at hbounds
      have hvalid : u.toNat.isValidChar := by
        rw [Nat.isValidChar]
        omega
      rw [ofUnit, if_neg hsurrogate, unitsOfChar, Char.toNat_ofNat, if_pos hvalid, if_pos hlt,
        UInt16.ofNat_toNat]
    · rw [Bool.not_eq_true, Bool.or_eq_false_iff] at hsurrogate
      exact hsurrogate.1

/-- **An assembled text has as many units as it was assembled from.** -/
theorem length_utf16Units_ofUtf16 (units : List UInt16) :
    (utf16Units (ofUtf16 units)).length = units.length := by
  rw [utf16Units, ofUtf16, String.toList_ofList]
  induction units using units_induction with
  | nil => rfl
  | pair u v rest hu hv ih =>
      rw [charsOfUnits_pair hu hv, List.flatMap_cons, unitsOfChar_ofPair hu hv,
        List.length_append, ih, Nat.add_comm]
      rfl
  | single u rest hsingle ih =>
      obtain ⟨w, hw, -, -⟩ := exists_unit_ofUnit u
      rw [charsOfUnits_single hsingle, List.flatMap_cons, hw, List.length_append, ih,
        Nat.add_comm]
      rfl

/-- **Slices of the units of an assembled text are assembled to the texts of the slices that
they come from**, wherever the cuts fall. Induction on the units; a cut through a pair leaves a
surrogate at the end of the slice in front of it and one at the start of the slice behind it. -/
theorem ofUtf16_slice (units : List UInt16) (start length : Nat) :
    ofUtf16 (((utf16Units (ofUtf16 units)).drop start).take length) =
      ofUtf16 ((units.drop start).take length) := by
  rw [ofUtf16, ofUtf16, utf16Units, ofUtf16, String.toList_ofList]
  congr 1
  induction units using units_induction generalizing start length with
  | nil => rfl
  | pair u v rest hu hv ih =>
      have hlow (others : List UInt16) :
          charsOfUnits (v :: others) = ofUnit v :: charsOfUnits others :=
        charsOfUnits_single (startsPair_of_low hv others)
      rw [charsOfUnits_pair hu hv, List.flatMap_cons, unitsOfChar_ofPair hu hv]
      match start, length with
      | _, 0 => rfl
      | 0, 1 => rfl
      | 0, length + 2 =>
          have h := ih 0 length
          simp only [List.drop_zero] at h
          simp only [List.cons_append, List.nil_append, List.drop_zero, List.take_succ_cons,
            charsOfUnits_pair hu hv, h]
      | 1, length + 1 =>
          have h := ih 0 length
          simp only [List.drop_zero] at h
          simp only [List.cons_append, List.nil_append, List.drop_succ_cons, List.drop_zero,
            List.take_succ_cons, hlow, h]
      | start + 2, length => exact ih start length
  | single u rest hsingle ih =>
      obtain ⟨w, hw, hhigh, hsame⟩ := exists_unit_ofUnit u
      have hfirst (others : List UInt16) :
          charsOfUnits (w :: others) = ofUnit u :: charsOfUnits others := by
        rw [charsOfUnits_single (by rw [startsPair, hhigh, Bool.false_and]), hsame]
      rw [charsOfUnits_single hsingle, List.flatMap_cons, hw, List.singleton_append]
      match start, length with
      | _, 0 => rfl
      | 0, length + 1 =>
          have h := ih 0 length
          simp only [List.drop_zero] at h
          simp only [List.drop_zero, List.take_succ_cons, hfirst,
            charsOfUnits_single (startsPair_take hsingle length), h]
      | start + 1, length => exact ih start length

end TaggedBytecode.Text
