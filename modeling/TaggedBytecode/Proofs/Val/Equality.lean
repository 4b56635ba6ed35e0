import Mathlib
import TaggedBytecode.Proofs.Binary64.Rounding
import TaggedBytecode.Val.Comparison

/-!
# Equality of Values

Strict equality compares two integers exactly, and an integer with a float after rounding the
integer to a word. Up to `2 ^ 53` this is a comparison of numbers. Beyond, neighbouring integers
are rounded to one word, and both are equal to it without being equal to each other. That is the
only way in which strict equality fails to be transitive. Loose equality rounds both of two
integers, and there such neighbours are equal.

## Main definitions

* `Val.StrictlyEqual` — the ways in which values are strictly equal.
* `Val.SameVariant` — values of one variant.

## Main results

* `Val.strictEq_iff` — strict equality decides `Val.StrictlyEqual`.
* `Val.strictEq_symmetric_transitive_iff` — the laws of strict equality.
* `Val.looseEq_extends_strictEq_iff` — the laws of loose equality.
-/

namespace TaggedBytecode.Val

/-! ### Strict equality -/

/-- The ways in which two values are **strictly equal**. -/
inductive StrictlyEqual : Val → Val → Prop
  | undefined : StrictlyEqual undefined undefined
  | null : StrictlyEqual null null
  | bool (b : Bool) : StrictlyEqual (bool b) (bool b)
  | int (n : Int64) : StrictlyEqual (int n) (int n)
  | float (x y : Binary64) (heq : x.equals y = true) : StrictlyEqual (float x) (float y)
  | intFloat (n : Int64) (x : Binary64) (heq : (Binary64.ofInt n.toInt).equals x = true) :
      StrictlyEqual (int n) (float x)
  | floatInt (x : Binary64) (n : Int64) (heq : (Binary64.ofInt n.toInt).equals x = true) :
      StrictlyEqual (float x) (int n)
  | str (s : String) : StrictlyEqual (str s) (str s)
  | list (identity : Nat) (xs ys : List Val) : StrictlyEqual (list identity xs) (list identity ys)
  | map (identity : Nat) (es fs : List (String × Val)) :
      StrictlyEqual (map identity es) (map identity fs)

theorem strictEq_of_strictlyEqual {a b : Val} (h : StrictlyEqual a b) : strictEq a b = true := by
  cases h with
  | undefined | null => rfl
  | bool | int | str | list | map => exact beq_self_eq_true _
  | float x y heq => exact heq
  | intFloat n x heq => exact heq
  | floatInt x n heq => exact (x.equals_comm _).trans heq

theorem isNumber_eq_true_iff {v : Val} :
    v.isNumber = true ↔ (∃ n, v = int n) ∨ ∃ x, v = float x := by
  cases v <;> simp [isNumber]

theorem strictlyEqual_of_strictEq {a b : Val} (h : strictEq a b = true) : StrictlyEqual a b := by
  fun_cases strictEq a b with
  | case1 m n =>
    obtain rfl : m = n := eq_of_beq h
    exact .int m
  | case2 => exact .undefined
  | case3 => exact .null
  | case4 b c =>
    obtain rfl : b = c := eq_of_beq h
    exact .bool b
  | case5 s t =>
    obtain rfl : s = t := eq_of_beq h
    exact .str s
  | case6 i xs j ys =>
    obtain rfl : i = j := eq_of_beq h
    exact .list i xs ys
  | case7 i es j fs =>
    obtain rfl : i = j := eq_of_beq h
    exact .map i es fs
  | case8 _ _ hnotInts =>
    rw [strictEq] at h <;> try assumption
    simp only [Bool.and_eq_true, isNumber_eq_true_iff] at h
    obtain ⟨⟨⟨m, rfl⟩ | ⟨x, rfl⟩, ⟨n, rfl⟩ | ⟨y, rfl⟩⟩, heq⟩ := h
    · exact (hnotInts m n rfl rfl).elim
    · exact .intFloat m y heq
    · exact .floatInt x n ((Binary64.equals_comm _ _).trans heq)
    · exact .float x y heq

/-- **Strict equality** decides the ways in which values are strictly equal. -/
theorem strictEq_iff {a b : Val} : strictEq a b = true ↔ StrictlyEqual a b :=
  ⟨strictlyEqual_of_strictEq, strictEq_of_strictlyEqual⟩

/-- Two different integers **meet at a float**, which stands between them. -/
def MeetAtFloat (a b c : Val) : Prop :=
  ∃ m x n, a = int m ∧ b = float x ∧ c = int n ∧ m ≠ n

namespace StrictlyEqual

variable {a b c : Val}

theorem symm (h : StrictlyEqual a b) : StrictlyEqual b a := by
  cases h with
  | undefined => exact .undefined
  | null => exact .null
  | bool b => exact .bool b
  | int n => exact .int n
  | float x y heq => exact .float y x ((y.equals_comm x).trans heq)
  | intFloat n x heq => exact .floatInt x n heq
  | floatInt x n heq => exact .intFloat n x heq
  | str s => exact .str s
  | list identity xs ys => exact .list identity ys xs
  | map identity es fs => exact .map identity fs es

/-- **Strict equality is transitive**, but for different integers that meet at a float. -/
theorem trans_or (hab : StrictlyEqual a b) (hbc : StrictlyEqual b c) :
    StrictlyEqual a c ∨ MeetAtFloat a b c := by
  cases hab with
  | undefined | null | bool | int | str => exact .inl hbc
  | list identity xs ys =>
    cases hbc
    exact .inl (.list ..)
  | map identity es fs =>
    cases hbc
    exact .inl (.map ..)
  | float x y hxy =>
    cases hbc with
    | float _ z hyz => exact .inl (.float x z (Binary64.equals_trans hxy hyz))
    | floatInt _ n hny =>
      exact .inl (.floatInt x n (Binary64.equals_trans hny ((y.equals_comm x).trans hxy)))
  | floatInt x n hnx =>
    cases hbc with
    | int => exact .inl (.floatInt x n hnx)
    | intFloat _ y hny =>
      exact .inl (.float x y (Binary64.equals_trans ((x.equals_comm _).trans hnx) hny))
  | intFloat m x hmx =>
    cases hbc with
    | float _ y hxy => exact .inl (.intFloat m y (Binary64.equals_trans hmx hxy))
    | floatInt _ n hnx =>
      rcases eq_or_ne m n with rfl | hne
      · exact .inl (.int m)
      · exact .inr ⟨m, x, n, rfl, rfl, rfl, hne⟩

end StrictlyEqual

theorem strictEq_comm (a b : Val) : strictEq a b = strictEq b a := by
  rw [Bool.eq_iff_iff, strictEq_iff, strictEq_iff]
  exact ⟨StrictlyEqual.symm, StrictlyEqual.symm⟩

theorem strictEq_trans_iff {a b c : Val} (hab : strictEq a b = true) (hbc : strictEq b c = true) :
    strictEq a c = true ↔ ¬ MeetAtFloat a b c := by
  constructor
  · rintro hac ⟨m, x, n, rfl, rfl, rfl, hne⟩
    exact hne (eq_of_beq hac)
  · rw [strictEq_iff] at *
    exact (hab.trans_or hbc).resolve_right

/-- **An integer is strictly equal to the floats nearest to it.** -/
theorem strictEq_int_float_iff (n : Int64) (x : Binary64) :
    strictEq (int n) (float x) = true ↔ Binary64.IsNearest n.toInt x :=
  Binary64.ofInt_equals_iff n x

/-- **The laws of strict equality.** It is symmetric. It is transitive, but for different integers
that meet at a float, and two of these are never both exact. An integer is equal to the floats that
are nearest to it. These are the floats of its value just if the integer is exact, as all integers
up to `2 ^ 53` in magnitude are. -/
theorem strictEq_symmetric_transitive_iff (a b c : Val) (n : Int64) :
    strictEq a b = strictEq b a ∧
    (strictEq a b = true → strictEq b c = true → (strictEq a c = true ↔ ¬ MeetAtFloat a b c)) ∧
    (∀ x, strictEq (int n) (float x) = true ↔ Binary64.IsNearest n.toInt x) ∧
    ((∀ x, strictEq (int n) (float x) = true ↔ x.isFinite = true ∧ x.toRat = n.toInt) ↔
      Binary64.IsExact n.toInt) ∧
    (n.toInt.natAbs ≤ 2 ^ 53 → Binary64.IsExact n.toInt) ∧
    (Binary64.IsExact n.toInt → ∀ m x, Binary64.IsExact m.toInt →
      strictEq (int m) (float x) = true → strictEq (float x) (int n) = true → m = n) := by
  refine ⟨strictEq_comm a b, strictEq_trans_iff, strictEq_int_float_iff n, ⟨fun hall => ?_,
    fun hexact x => (strictEq_int_float_iff n x).trans hexact.isNearest_iff⟩,
    Binary64.isExact_of_natAbs_le, fun hn m x hm hmx hxn => ?_⟩
  · exact ⟨_, (hall _).mp ((strictEq_int_float_iff n _).mpr (Binary64.ofInt_toInt_isNearest n))⟩
  · rw [strictEq_comm] at hxn
    rw [strictEq_int_float_iff] at hmx hxn
    exact Binary64.eq_of_isNearest_toInt hm hn hmx hxn

/-- The float `2 ^ 53`, nearest to `2 ^ 53` and to `2 ^ 53 + 1`. -/
def twoPow53 : Binary64 := ⟨0x4340000000000000⟩

/-- The two integers meet at the float, so they are not both exact; `2 ^ 53` is. -/
theorem strictEq_symmetric_transitive_iff_twoPow53 :
    strictEq (int 9007199254740992) (float twoPow53) = true ∧
      strictEq (float twoPow53) (int 9007199254740993) = true ∧
      ¬ strictEq (int 9007199254740992) (int 9007199254740993) = true ∧
      Binary64.IsExact (9007199254740992 : Int64).toInt ∧
      ¬ Binary64.IsExact (9007199254740993 : Int64).toInt := by
  have hleft : strictEq (int 9007199254740992) (float twoPow53) = true := by decide +kernel
  have hright : strictEq (float twoPow53) (int 9007199254740993) = true := by decide +kernel
  have hne : (9007199254740992 : Int64) ≠ 9007199254740993 := by decide
  obtain ⟨-, htrans, -, -, -, hmeet⟩ := strictEq_symmetric_transitive_iff
    (int 9007199254740992) (float twoPow53) (int 9007199254740993) 9007199254740993
  obtain ⟨-, -, -, -, hexact, -⟩ := strictEq_symmetric_transitive_iff
    (int 9007199254740992) (float twoPow53) (int 9007199254740993) 9007199254740992
  have hexact := hexact (by decide)
  refine ⟨hleft, hright, fun heq => ?_, hexact, fun hboth => ?_⟩
  · exact (htrans hleft hright).mp heq ⟨_, _, _, rfl, rfl, rfl, hne⟩
  · exact hne (hmeet hboth _ _ hexact hleft hright)

/-- `2 ^ 53` and `2 ^ 53 + 1` are both equal to a float, and not to each other. -/
theorem not_strictEq_transitive_twoPow53 :
    ¬ ∀ a b c : Val, strictEq a b = true → strictEq b c = true → strictEq a c = true := by
  intro htrans
  have heq := htrans (int 9007199254740992) (float twoPow53) (int 9007199254740993)
    (by decide +kernel) (by decide +kernel)
  exact absurd heq (by decide)

/-! ### Loose equality -/

/-- Loose equality compares nullish values as such, two strings and containers strictly, and all
other values by their numbers. Each way is symmetric. -/
theorem looseEq_comm (a b : Val) : looseEq a b = looseEq b a := by
  cases a <;> cases b <;>
    simp only [looseEq, isNullish, isContainer, Bool.or_true, Bool.or_false, Bool.and_true,
      Bool.and_false, Bool.false_eq_true, if_true, if_false]
  all_goals first | exact Binary64.equals_comm _ _ | exact strictEq_comm _ _ | exact BEq.comm

/-- Two values of one **variant**, their contents apart. -/
inductive SameVariant : Val → Val → Prop
  | undefined : SameVariant undefined undefined
  | null : SameVariant null null
  | bool (b c : Bool) : SameVariant (bool b) (bool c)
  | int (m n : Int64) : SameVariant (int m) (int n)
  | float (x y : Binary64) : SameVariant (float x) (float y)
  | str (s t : String) : SameVariant (str s) (str t)
  | list (i j : Nat) (xs ys : List Val) : SameVariant (list i xs) (list j ys)
  | map (i j : Nat) (es fs : List (String × Val)) : SameVariant (map i es) (map j fs)

/-- The numbers of the truth values are different. -/
theorem toNumber_bool_equals (b c : Bool) :
    (bool b).toNumber.equals (bool c).toNumber = (b == c) := by
  cases b <;> cases c <;> decide +kernel

theorem looseEq_of_strictEq {a b : Val} (h : strictEq a b = true) : looseEq a b = true := by
  cases strictEq_iff.mp h with
  | undefined | null => rfl
  | bool b => exact (toNumber_bool_equals b b).trans (beq_self_eq_true b)
  | int n => exact (Binary64.ofInt_equals_iff n _).mpr (Binary64.ofInt_toInt_isNearest n)
  | float | intFloat | floatInt | str | list | map => exact h

/-- **Integers are loosely equal** if there is a word that is nearest to both. -/
theorem looseEq_int_int_iff (m n : Int64) :
    looseEq (int m) (int n) = true ↔
      ∃ x, Binary64.IsNearest m.toInt x ∧ Binary64.IsNearest n.toInt x := by
  have hn := Binary64.ofInt_toInt_isNearest n
  refine (Binary64.ofInt_equals_iff m (Binary64.ofInt n.toInt)).trans ⟨fun hm => ⟨_, hm, hn⟩, ?_⟩
  rintro ⟨x, hmx, hnx⟩
  exact hmx.congr hn.isFinite (hn.unique hnx)

/-- Two different integers that are **rounded together**: one word is nearest to both. -/
def RoundedTogether (a b : Val) : Prop :=
  ∃ m n, a = int m ∧ b = int n ∧ m ≠ n ∧
    ∃ x, Binary64.IsNearest m.toInt x ∧ Binary64.IsNearest n.toInt x

theorem looseEq_iff_strictEq_iff {a b : Val} (h : SameVariant a b) :
    (looseEq a b = true ↔ strictEq a b = true) ↔ ¬ RoundedTogether a b := by
  cases h with
  | undefined | null | float | str | list | map =>
    refine iff_of_true Iff.rfl ?_
    rintro ⟨m, n, hm, -⟩
    cases hm
  | bool b c =>
    refine iff_of_true (Bool.eq_iff_iff.mp (toNumber_bool_equals b c)) ?_
    rintro ⟨m, n, hm, -⟩
    cases hm
  | int m n =>
    have hstrict : strictEq (int m) (int n) = true ↔ m = n := beq_iff_eq
    rw [hstrict, looseEq_int_int_iff]
    constructor
    · rintro hiff ⟨_, _, ⟨⟩, ⟨⟩, hne, hboth⟩
      exact hne (hiff.mp hboth)
    · intro hapart
      refine ⟨fun hboth => by_contra fun hne => hapart ⟨m, n, rfl, rfl, hne, hboth⟩, ?_⟩
      rintro rfl
      exact ⟨_, Binary64.ofInt_toInt_isNearest m, Binary64.ofInt_toInt_isNearest m⟩

/-- **The laws of loose equality.** It is symmetric, and it holds where strict equality does.
Between values of one variant it holds just there, but for two different integers that are rounded
together, and two of these are never both exact. -/
theorem looseEq_extends_strictEq_iff (a b : Val) :
    looseEq a b = looseEq b a ∧ (strictEq a b = true → looseEq a b = true) ∧
    (SameVariant a b →
      ((looseEq a b = true ↔ strictEq a b = true) ↔ ¬ RoundedTogether a b)) ∧
    ∀ m n : Int64, Binary64.IsExact m.toInt → Binary64.IsExact n.toInt →
      ¬ RoundedTogether (int m) (int n) := by
  refine ⟨looseEq_comm a b, looseEq_of_strictEq, looseEq_iff_strictEq_iff, fun m n hm hn => ?_⟩
  rintro ⟨_, _, ⟨⟩, ⟨⟩, hne, x, hmx, hnx⟩
  exact hne (Binary64.eq_of_isNearest_toInt hm hn hmx hnx)

/-- The two integers are loosely and not strictly equal, so they are rounded together. -/
theorem looseEq_extends_strictEq_iff_twoPow53 :
    SameVariant (int 9007199254740992) (int 9007199254740993) ∧
      looseEq (int 9007199254740992) (int 9007199254740993) = true ∧
      strictEq (int 9007199254740992) (int 9007199254740993) = false ∧
      RoundedTogether (int 9007199254740992) (int 9007199254740993) ∧
      ¬ RoundedTogether (int 9007199254740991) (int 9007199254740992) ∧
      looseEq (int 9007199254740992) (float twoPow53) = true := by
  have hvariant : SameVariant (int 9007199254740992) (int 9007199254740993) := .int _ _
  have hloose : looseEq (int 9007199254740992) (int 9007199254740993) = true := by decide +kernel
  have hstrict : strictEq (int 9007199254740992) (int 9007199254740993) = false := by decide
  obtain ⟨-, -, hsame, -⟩ :=
    looseEq_extends_strictEq_iff (int 9007199254740992) (int 9007199254740993)
  obtain ⟨-, hextends, -, hexact⟩ :=
    looseEq_extends_strictEq_iff (int 9007199254740992) (float twoPow53)
  have hapart : ¬ RoundedTogether (int 9007199254740991) (int 9007199254740992) :=
    hexact _ _ (Binary64.isExact_of_natAbs_le (by decide))
      (Binary64.isExact_of_natAbs_le (by decide))
  refine ⟨hvariant, hloose, hstrict, by_contra fun hnot => ?_, hapart, hextends (by decide +kernel)⟩
  have hequal := ((hsame hvariant).mpr hnot).mp hloose
  rw [hstrict] at hequal
  exact Bool.false_ne_true hequal

/-- `2 ^ 53` and `2 ^ 53 + 1` are integers that are loosely and not strictly equal. -/
theorem not_looseEq_iff_strictEq_twoPow53 :
    ¬ ∀ a b : Val, SameVariant a b → (looseEq a b = true ↔ strictEq a b = true) := by
  intro hsame
  have hstrict := (hsame (int 9007199254740992) (int 9007199254740993) (.int _ _)).mp
    (by decide +kernel)
  exact absurd hstrict (by decide)

end TaggedBytecode.Val
