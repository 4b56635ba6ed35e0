import Mathlib
import TaggedBytecode.Proofs.Binary64.Value
import TaggedBytecode.Val.Number

/-!
# Wrapping Numbers to 32 Bits

The 32-bit integer of a number is congruent to its whole part modulo `2 ^ 32`. For a float there
is one exception. The whole part is held at the bounds of the 128-bit integers before it wraps:
from `2 ^ 127` on, every float is a multiple of `2 ^ 32`, and so is the lower bound, but the upper
bound is not.

## Main results

* `Val.truncate_modEq_zero` — great floats are multiples of `2 ^ 32`.
* `Val.toInt32_congruent_iff` — which numbers wrap to a congruent integer.
-/

namespace TaggedBytecode.Val

variable {x : Binary64} {n : ℤ}

/-! ### Wrapping -/

/-- Wrapping to 32 bits keeps the residue. -/
theorem toInt_ofInt32_modEq (n : ℤ) : (Int32.ofInt n).toInt ≡ n [ZMOD 2 ^ 32] := by
  rw [Int32.toInt_ofInt]
  exact Int.bmod_emod

/-- Narrowing a 64-bit integer is wrapping it. -/
theorem toInt_toInt32_modEq (n : Int64) : n.toInt32.toInt ≡ n.toInt [ZMOD 2 ^ 32] := by
  rw [Int64.toInt_toInt32]
  exact Int.bmod_emod

/-! ### Bounds -/

theorem clampInt128_of_mem (hlow : -2 ^ 127 ≤ n) (hhigh : n < 2 ^ 127) : clampInt128 n = n := by
  rw [clampInt128]
  omega

theorem clampInt128_of_lt (h : n < -2 ^ 127) : clampInt128 n = -2 ^ 127 := by
  rw [clampInt128]
  omega

theorem clampInt128_of_ge (h : 2 ^ 127 ≤ n) : clampInt128 n = 2 ^ 127 - 1 := by
  rw [clampInt128]
  omega

/-! ### Floats -/

/-- From `2 ^ 127` on, whole parts wrap to zero. -/
theorem truncate_modEq_zero (h : 2 ^ 127 ≤ x.truncate.natAbs) : x.truncate ≡ 0 [ZMOD 2 ^ 32] := by
  have hdvd : (2 ^ 75 : ℤ) ∣ x.truncate :=
    Binary64.two_pow_dvd_truncate (by rw [Binary64.binade]; exact h)
  exact Int.modEq_zero_iff_dvd.mpr ((pow_dvd_pow 2 (by decide)).trans hdvd)

theorem toInt32_float (hx : x.isFinite = true) :
    (float x).toInt32 = Int32.ofInt (clampInt128 x.truncate) :=
  if_pos hx

/-- Below `2 ^ 127` holding at the bounds changes no residue. -/
theorem toInt32_modEq_of_lt (hx : x.isFinite = true) (h : x.truncate < 2 ^ 127) :
    (float x).toInt32.toInt ≡ x.truncate [ZMOD 2 ^ 32] := by
  rw [toInt32_float hx]
  refine (toInt_ofInt32_modEq _).trans ?_
  rcases lt_or_ge x.truncate (-2 ^ 127) with hlow | hlow
  · rw [clampInt128_of_lt hlow]
    exact (truncate_modEq_zero (by omega)).symm
  · rw [clampInt128_of_mem hlow h]

/-- From `2 ^ 127` on the number is held at a bound that is odd. -/
theorem toInt32_of_ge (hx : x.isFinite = true) (h : 2 ^ 127 ≤ x.truncate) :
    (float x).toInt32 = -1 := by
  rw [toInt32_float hx, clampInt128_of_ge h]
  rfl

theorem not_isFinite_of_isNaN_or_isInfinite (h : x.isNaN = true ∨ x.isInfinite = true) :
    x.isFinite = false := by
  simp only [Binary64.isNaN, Binary64.isInfinite, Binary64.isFinite, decide_eq_true_eq,
    decide_eq_false_iff_not] at *
  omega

/-- **Numbers wrap to the congruent 32-bit integer, but for floats from `2 ^ 127` on.** Every
integer, and every finite float below `2 ^ 127`, has the 32-bit integer that is congruent to its
whole part modulo `2 ^ 32`. Every finite float from there on is a multiple of `2 ^ 32` and has the
32-bit integer `-1`. NaN and the infinities have zero. -/
theorem toInt32_congruent_iff (x : Binary64) (n : Int64) :
    (x.isFinite = true →
      ((float x).toInt32.toInt ≡ Binary64.wholePart x.toRat [ZMOD 2 ^ 32] ↔ x.toRat < 2 ^ 127) ∧
      (2 ^ 127 ≤ x.toRat → Binary64.wholePart x.toRat ≡ 0 [ZMOD 2 ^ 32] ∧
        (float x).toInt32 = -1)) ∧
    (x.isNaN = true ∨ x.isInfinite = true → (float x).toInt32 = 0) ∧
    (int n).toInt32.toInt ≡ n.toInt [ZMOD 2 ^ 32] := by
  have hbound : x.truncate < 2 ^ 127 ↔ x.toRat < 2 ^ 127 := by
    rw [Binary64.truncate_eq, Binary64.wholePart_lt_iff (by norm_num)]
    norm_num
  have hgreat : 2 ^ 127 ≤ x.truncate → x.truncate ≡ 0 [ZMOD 2 ^ 32] :=
    fun hge => truncate_modEq_zero (by omega)
  rw [← Binary64.truncate_eq, ← not_lt, ← hbound, not_lt]
  refine ⟨fun hx => ⟨⟨fun hcongruent => ?_, toInt32_modEq_of_lt hx⟩,
    fun hge => ⟨hgreat hge, toInt32_of_ge hx hge⟩⟩, fun hspecial => ?_, toInt_toInt32_modEq n⟩
  · by_contra hge
    have hzero := hcongruent.trans (hgreat (Int.not_lt.mp hge))
    rw [toInt32_of_ge hx (Int.not_lt.mp hge)] at hzero
    exact absurd hzero (by decide)
  · refine if_neg ?_
    rw [toNumber, not_isFinite_of_isNaN_or_isInfinite hspecial]
    exact Bool.false_ne_true

/-- The float `2 ^ 127`. -/
def twoPow127 : Binary64 := ⟨0x47e0000000000000⟩

/-- The float `-(2 ^ 32 + 3 / 2)`. -/
def belowMinusTwoPow32 : Binary64 := ⟨0xc1f0000000180000⟩

/-- The one wraps to `-1` as it should, the other is held at `2 ^ 127 - 1` and so wraps to `-1`
as well. -/
theorem toInt32_congruent_iff_bothSides :
    belowMinusTwoPow32.isFinite = true ∧ belowMinusTwoPow32.toRat < 2 ^ 127 ∧
      (float belowMinusTwoPow32).toInt32.toInt ≡
        Binary64.wholePart belowMinusTwoPow32.toRat [ZMOD 2 ^ 32] ∧
      twoPow127.isFinite = true ∧ 2 ^ 127 ≤ twoPow127.toRat ∧ (float twoPow127).toInt32 = -1 ∧
      Binary64.nan.isNaN = true ∧ (float Binary64.nan).toInt32 = 0 := by
  have hbelow : belowMinusTwoPow32.toRat < 2 ^ 127 := by decide +kernel
  have hfrom : 2 ^ 127 ≤ twoPow127.toRat := by decide +kernel
  obtain ⟨hless, -, -⟩ := toInt32_congruent_iff belowMinusTwoPow32 0
  obtain ⟨hgreater, -, -⟩ := toInt32_congruent_iff twoPow127 0
  obtain ⟨-, hspecial, -⟩ := toInt32_congruent_iff Binary64.nan 0
  exact ⟨by decide, hbelow, (hless (by decide)).1.mpr hbelow, by decide, hfrom,
    ((hgreater (by decide)).2 hfrom).2, by decide, hspecial (.inl (by decide))⟩

/-- The float `2 ^ 127` is finite and a multiple of `2 ^ 32`, and yet its 32-bit integer is not
zero. -/
theorem not_toInt32_congruent_twoPow127 :
    ¬ ∀ x : Binary64, x.isFinite = true →
      (float x).toInt32.toInt ≡ Binary64.wholePart x.toRat [ZMOD 2 ^ 32] := by
  intro hall
  have hcongruent := hall twoPow127 (by decide)
  rw [← Binary64.truncate_eq] at hcongruent
  exact absurd hcongruent (by decide +kernel)

end TaggedBytecode.Val
