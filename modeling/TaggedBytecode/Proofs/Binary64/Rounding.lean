import Mathlib
import TaggedBytecode.Binary64.Arithmetic
import TaggedBytecode.Proofs.Binary64.Value

/-!
# Rounding to the Nearest Word

A word is **nearest** to a number if no finite word is nearer, and if of two words that are as
near it is the one with the even fraction. Rounding finds a nearest word, and all nearest words
have the same value. Below the first significand of the binade that a number falls into the words
lie closer to each other, but none of them is as near as that significand.

## Main definitions

* `Binary64.IsNearest` — a nearest word.
* `Binary64.IsExact` — a number that is the value of a word.
* `Binary64.roundBinade`, `Binary64.roundMagnitude` — the parts of rounding.

## Main results

* `roundHalfEven_nearest` — rounding a quotient to a natural number.
* `Binary64.roundMagnitude_nearest`, `Binary64.roundRatio_isNearest` — rounding a quotient to a
  word.
* `Binary64.IsNearest.unique` — nearest words have the same value.
* `Binary64.ofInt_isNearest` — integers of 64 bits are rounded to a nearest word.
* `Binary64.IsExact.isNearest_iff` — exact numbers are not rounded.
* `Binary64.isExact_of_natAbs_le` — integers up to `2 ^ 53` in magnitude are exact.
-/

namespace TaggedBytecode

/-! ### Quotients -/

/-- A quotient is rounded down or up, to the nearer side, and to the even one of two that are as
near. -/
theorem roundHalfEven_cases (num den : Nat) :
    (roundHalfEven num den = num / den ∧ 2 * (num % den) ≤ den ∧
      (2 * (num % den) = den → Even (num / den))) ∨
    (roundHalfEven num den = num / den + 1 ∧ den ≤ 2 * (num % den) ∧
      (2 * (num % den) = den → Even (num / den + 1))) := by
  simp only [roundHalfEven, Nat.even_iff]
  split
  · exact .inl ⟨rfl, by omega, by omega⟩
  · split
    · exact .inr ⟨rfl, by omega, by omega⟩
    · rcases Nat.mod_two_eq_zero_or_one (num / den) with heven | hodd
      · exact .inl ⟨by omega, by omega, fun _ => heven⟩
      · exact .inr ⟨by omega, by omega, by omega⟩

theorem le_roundHalfEven {num den c : Nat} (hden : 0 < den) (h : c * den ≤ num) :
    c ≤ roundHalfEven num den := by
  have hc : c ≤ num / den := (Nat.le_div_iff_mul_le hden).mpr h
  rcases roundHalfEven_cases num den with ⟨heq, -⟩ | ⟨heq, -⟩ <;> omega

theorem roundHalfEven_le {num den c : Nat} (hden : 0 < den) (h : num < c * den) :
    roundHalfEven num den ≤ c := by
  have hc : num / den < c := (Nat.div_lt_iff_lt_mul hden).mpr h
  rcases roundHalfEven_cases num den with ⟨heq, -⟩ | ⟨heq, -⟩ <;> omega

/-- Different multiples of a step are at least one step apart. -/
theorem mul_apart (c d step : Nat) :
    c = d ∨ c * step + step ≤ d * step ∨ d * step + step ≤ c * step := by
  rcases Nat.lt_trichotomy c d with hlt | heq | hgt
  · exact .inr (.inl (Nat.succ_mul c step ▸ Nat.mul_le_mul_right step hlt))
  · exact .inl heq
  · exact .inr (.inr (Nat.succ_mul d step ▸ Nat.mul_le_mul_right step hgt))

/-- **The nearest multiple of a step**, and of two that are as near the even one. -/
theorem roundHalfEven_nearest (num : Nat) {step : Nat} (hstep : 0 < step) (c : Nat) :
    ((roundHalfEven num step * step : ℕ) - num : ℤ).natAbs ≤ ((c * step : ℕ) - num : ℤ).natAbs ∧
      (((c * step : ℕ) - num : ℤ).natAbs = ((roundHalfEven num step * step : ℕ) - num : ℤ).natAbs →
        c = roundHalfEven num step ∨ Even (roundHalfEven num step)) := by
  have hsum : num / step * step + num % step = num := Nat.div_add_mod' num step
  have hlt : num % step < step := Nat.mod_lt _ hstep
  have hnext : (num / step + 1) * step = num / step * step + step := Nat.succ_mul _ _
  rcases roundHalfEven_cases num step with ⟨heq, hnear, heven⟩ | ⟨heq, hnear, heven⟩
  · rw [heq]
    rcases mul_apart c (num / step) step with rfl | hapart
    · exact ⟨le_rfl, fun _ => .inl rfl⟩
    · exact ⟨by omega, fun _ => .inr (heven (by omega))⟩
  · rw [heq]
    rcases mul_apart c (num / step + 1) step with rfl | hapart
    · exact ⟨le_rfl, fun _ => .inl rfl⟩
    · exact ⟨by omega, fun _ => .inr (heven (by omega))⟩

namespace Binary64

/-! ### Magnitudes -/

/-- The number of binary digits of a quotient that do not fit a significand. -/
def roundBinade (num den : Nat) : Nat :=
  if num / den = 0 then 0 else Nat.log2 (num / den) - 52

/-- The magnitude that a quotient of units is rounded to. -/
def roundMagnitude (num den : Nat) : Nat :=
  roundBinade num den * binade + roundHalfEven num (den * 2 ^ roundBinade num den)

theorem roundRatio_eq (negative : Bool) (num den : Nat) :
    roundRatio negative num den =
      ofMagnitude negative (min (roundMagnitude num den) infiniteMagnitude) := rfl

variable {num den : Nat}

/-- A quotient lies below the end of its binade. -/
theorem lt_mul_roundBinade (num : Nat) (hden : 0 < den) :
    num < 2 * binade * (den * 2 ^ roundBinade num den) := by
  have hdigits : num / den < 2 ^ (53 + roundBinade num den) := by
    rw [roundBinade]
    split
    · rename_i hzero
      rw [hzero]
      positivity
    · exact Nat.lt_log2_self.trans_le (Nat.pow_le_pow_right two_pos (by omega))
  calc num < 2 ^ (53 + roundBinade num den) * den := (Nat.div_lt_iff_lt_mul hden).mp hdigits
    _ = 2 * binade * (den * 2 ^ roundBinade num den) := by rw [pow_add, binade]; ring

/-- A quotient lies above the start of its binade, unless that is the lowest one. -/
theorem mul_roundBinade_le (num : Nat) (hden : 0 < den) :
    roundBinade num den = 0 ∨ binade * (den * 2 ^ roundBinade num den) ≤ num := by
  refine or_iff_not_imp_left.mpr fun hne => ?_
  have hwhole : num / den ≠ 0 := fun hzero => hne (if_pos hzero)
  have hlog : 52 + roundBinade num den = Nat.log2 (num / den) := by
    rw [roundBinade, if_neg hwhole] at hne ⊢
    omega
  have hdigits : 2 ^ (52 + roundBinade num den) ≤ num / den := by
    rw [hlog]
    exact Nat.log2_self_le hwhole
  calc binade * (den * 2 ^ roundBinade num den)
    _ = 2 ^ (52 + roundBinade num den) * den := by rw [pow_add, binade]; ring
    _ ≤ num := (Nat.le_div_iff_mul_le hden).mp hdigits

/-- The rounded significand is one of the binade, or the first one of the next. -/
theorem unitsAt_roundMagnitude (num : Nat) (hden : 0 < den) :
    unitsAt (roundMagnitude num den) =
      roundHalfEven num (den * 2 ^ roundBinade num den) * 2 ^ roundBinade num den := by
  have hstep : 0 < den * 2 ^ roundBinade num den := Nat.mul_pos hden (Nat.two_pow_pos _)
  exact unitsAt_split (roundHalfEven_le hstep (lt_mul_roundBinade num hden))
    ((mul_roundBinade_le num hden).imp_right (le_roundHalfEven hstep))

/-- How far the units of a magnitude are from a quotient, multiplied by the denominator. -/
def distance (num den m : Nat) : Nat :=
  ((unitsAt m * den : ℕ) - num : ℤ).natAbs

/-- **The nearest magnitude to a quotient of units**, and of two that are as near the even one. -/
theorem roundMagnitude_nearest (num : Nat) (hden : 0 < den) (m : Nat) :
    distance num den (roundMagnitude num den) ≤ distance num den m ∧
      (distance num den m = distance num den (roundMagnitude num den) →
        m = roundMagnitude num den ∨ Even (roundMagnitude num den)) := by
  have hunits := unitsAt_roundMagnitude num hden
  have hstart := mul_roundBinade_le num hden
  rw [distance, distance, hunits]
  simp only [roundMagnitude] at hunits ⊢
  generalize roundBinade num den = k at hunits hstart ⊢
  have hstep : 0 < den * 2 ^ k := Nat.mul_pos hden (Nat.two_pow_pos _)
  have hscale (c : Nat) : c * 2 ^ k * den = c * (den * 2 ^ k) := by ring
  have hnearest := roundHalfEven_nearest num hstep
  generalize roundHalfEven num (den * 2 ^ k) = significand at hunits hnearest ⊢
  rw [hscale]
  have hgrid : 2 ^ k ∣ unitsAt m ∨ k ≠ 0 ∧ unitsAt m < binade * 2 ^ k := by
    rcases Nat.lt_or_ge (unitsAt m) (binade * 2 ^ k) with hbelow | hfrom
    · rcases eq_or_ne k 0 with rfl | hk
      · exact .inl (one_dvd _)
      · exact .inr ⟨hk, hbelow⟩
    · exact .inl (two_pow_dvd_unitsAt hfrom)
  rcases hgrid with ⟨c, hc⟩ | ⟨hk, hbelow⟩
  · rw [hc, Nat.mul_comm (2 ^ k), hscale]
    refine ⟨(hnearest c).1, fun htie => ((hnearest c).2 htie).imp ?_ ?_⟩
    · rintro rfl
      exact strictMono_unitsAt.injective (hc.trans (Nat.mul_comm _ _) |>.trans hunits.symm)
    · exact ((show Even binade by decide).mul_left k).add
  · -- the start of the binade is on the grid, and it is nearer than all that is below it
    have hstart := hstart.resolve_left hk
    have hbelow : unitsAt m * den < binade * (den * 2 ^ k) := by
      rw [← hscale]
      exact Nat.mul_lt_mul_of_pos_right hbelow hden
    have hle := (hnearest binade).1
    exact ⟨by omega, fun htie => absurd htie (by omega)⟩

/-- A quotient of few digits is rounded to a magnitude of a low binade. -/
theorem roundMagnitude_le (hden : 0 < den) {k : Nat} (h : num < 2 ^ (53 + k) * den) :
    roundMagnitude num den ≤ (k + 2) * binade := by
  have hbinade : roundBinade num den ≤ k := by
    rw [roundBinade]
    split
    · exact Nat.zero_le k
    · rename_i hwhole
      have hlog : Nat.log2 (num / den) < 53 + k :=
        (Nat.log2_lt hwhole).mpr ((Nat.div_lt_iff_lt_mul hden).mpr h)
      omega
  have hsignificand := roundHalfEven_le (Nat.mul_pos hden (Nat.two_pow_pos _))
    (lt_mul_roundBinade num hden)
  calc roundMagnitude num den
    _ ≤ k * binade + 2 * binade :=
        Nat.add_le_add (Nat.mul_le_mul_right binade hbinade) hsignificand
    _ = (k + 2) * binade := (Nat.add_mul k 2 binade).symm

theorem magnitude_roundRatio (negative : Bool)
    (hfinite : roundMagnitude num den < infiniteMagnitude) :
    (roundRatio negative num den).magnitude = roundMagnitude num den := by
  rw [roundRatio_eq, Nat.min_eq_left hfinite.le,
    magnitude_ofMagnitude negative (hfinite.trans (by decide))]

theorem negative_roundRatio (negative : Bool)
    (hfinite : roundMagnitude num den < infiniteMagnitude) :
    (roundRatio negative num den).negative = negative := by
  rw [roundRatio_eq, Nat.min_eq_left hfinite.le,
    negative_ofMagnitude negative (hfinite.trans (by decide))]

/-! ### Nearest words -/

/-- A finite word is **nearest** to a number if no finite word is nearer, and if it has an even
fraction where a word of another value is as near. -/
structure IsNearest (q : ℚ) (x : Binary64) : Prop where
  isFinite : x.isFinite = true
  le {y : Binary64} : y.isFinite = true → |x.toRat - q| ≤ |y.toRat - q|
  even {y : Binary64} : y.isFinite = true → |y.toRat - q| = |x.toRat - q| →
    y.toRat = x.toRat ∨ Even x.fractionField

theorem even_fractionField_iff (x : Binary64) : Even x.fractionField ↔ Even x.magnitude := by
  simp only [fractionField, binade, Nat.even_iff]
  omega

theorem abs_units_sub (hden : 0 < den) (m num : Nat) :
    |(unitsAt m / unitsPerOne - num / den / unitsPerOne : ℚ)| =
      distance num den m / (den * unitsPerOne) := by
  have hone : (0 : ℚ) < unitsPerOne := Nat.cast_pos.mpr unitsPerOne_pos
  have hden : (0 : ℚ) < den := Nat.cast_pos.mpr hden
  have hsub : (unitsAt m / unitsPerOne - num / den / unitsPerOne : ℚ) =
      ((unitsAt m * den : ℕ) - num : ℤ) / (den * unitsPerOne) := by
    push_cast
    field_simp
  rw [hsub, abs_div, abs_of_pos (mul_pos hden hone), distance, Nat.cast_natAbs, Int.cast_abs]

/-- A number is no nearer to a word than its absolute value is to that of the word. -/
theorem abs_units_sub_le (negative : Bool) (hden : 0 < den) (num : Nat) (y : Binary64) :
    (distance num den y.magnitude / (den * unitsPerOne) : ℚ) ≤
      |y.toRat - signFactor negative * (num / den / unitsPerOne)| := by
  have habs := abs_signFactor_mul negative (q := num / den / unitsPerOne)
    (div_nonneg (div_nonneg num.cast_nonneg den.cast_nonneg) unitsPerOne.cast_nonneg)
  calc (distance num den y.magnitude / (den * unitsPerOne) : ℚ)
    _ = |(|y.toRat| - |signFactor negative * (num / den / unitsPerOne)|)| := by
        rw [habs, abs_toRat, abs_units_sub hden]
    _ ≤ _ := abs_abs_sub_abs_le _ _

/-- A word is as near as its opposite only to zero, and the word nearest to zero is zero. -/
theorem toRat_eq_zero_of_tie {q : ℚ} {x : Binary64}
    (hle : ∀ y : Binary64, |x.toRat - q| ≤ |y.toRat - q|)
    (htie : |-x.toRat - q| = |x.toRat - q|) : x.toRat = 0 := by
  have hsquares := sq_eq_sq_iff_abs_eq_abs (-x.toRat - q) (x.toRat - q) |>.mpr htie
  have hproduct : x.toRat * q = 0 := by linarith
  rcases mul_eq_zero.mp hproduct with hx | rfl
  · exact hx
  · have hzero := hle (zero false)
    rw [toRat_zero, sub_zero, sub_zero, abs_zero] at hzero
    exact abs_nonpos_iff.mp hzero

/-- **Rounding finds a nearest word**, unless it ends in an infinity. -/
theorem roundRatio_isNearest (negative : Bool) (hden : 0 < den)
    (hfinite : roundMagnitude num den < infiniteMagnitude) :
    IsNearest (signFactor negative * (num / den / unitsPerOne)) (roundRatio negative num den) := by
  have hmagnitude := magnitude_roundRatio negative hfinite
  have hnegative := negative_roundRatio negative hfinite
  generalize roundRatio negative num den = x at hmagnitude hnegative
  have hpos : (0 : ℚ) < den * unitsPerOne :=
    mul_pos (Nat.cast_pos.mpr hden) (Nat.cast_pos.mpr unitsPerOne_pos)
  have hx : |x.toRat - signFactor negative * (num / den / unitsPerOne)| =
      distance num den x.magnitude / (den * unitsPerOne) := by
    rw [toRat_eq_signFactor_mul, hnegative, ← mul_sub, abs_mul, abs_signFactor, one_mul,
      abs_units_sub hden]
  have hnearest := roundMagnitude_nearest num hden
  rw [← hmagnitude] at hnearest
  have hle (y : Binary64) : |x.toRat - signFactor negative * (num / den / unitsPerOne)| ≤
      |y.toRat - signFactor negative * (num / den / unitsPerOne)| := by
    rw [hx]
    refine le_trans ?_ (abs_units_sub_le negative hden num y)
    exact (div_le_div_iff_of_pos_right hpos).mpr (Nat.cast_le.mpr (hnearest y.magnitude).1)
  refine ⟨decide_eq_true (hmagnitude ▸ hfinite), fun {y} _ => hle y, fun {y} _ htie => ?_⟩
  have hfar := (abs_units_sub_le negative hden num y).trans_eq (htie.trans hx)
  have hdistance := le_antisymm (Nat.cast_le.mp ((div_le_div_iff_of_pos_right hpos).mp hfar))
    (hnearest y.magnitude).1
  rw [even_fractionField_iff]
  rcases (hnearest y.magnitude).2 hdistance with hsame | heven
  · have habs : |y.toRat| = |x.toRat| := by rw [abs_toRat, abs_toRat, hsame]
    rcases abs_eq_abs.mp habs with heq | hneg
    · exact .inl heq
    · rw [hneg] at htie ⊢
      exact .inl (neg_eq_self.mpr (toRat_eq_zero_of_tie hle htie))
  · exact .inr heven

namespace IsNearest

variable {q : ℚ} {x y : Binary64}

theorem abs_sub_eq (hx : IsNearest q x) (hy : IsNearest q y) : |x.toRat - q| = |y.toRat - q| :=
  le_antisymm (hx.le hy.isFinite) (hy.le hx.isFinite)

/-- A nearest word is not below another one: between two words of even fraction there is a word,
and it is nearer. -/
theorem not_lt (hx : IsNearest q x) (hy : IsNearest q y) : ¬ x.toRat < y.toRat := by
  intro hlt
  have hdistance := hx.abs_sub_eq hy
  have hxeven : Even x.fractionField := (hx.even hy.isFinite hdistance.symm).resolve_left hlt.ne'
  have hyeven : Even y.fractionField := (hy.even hx.isFinite hdistance).resolve_left hlt.ne
  have hkeys := toRat_lt_iff.mp hlt
  rw [even_fractionField_iff, ← natAbs_key, Int.natAbs_even] at hxeven hyeven
  have hxfinite := of_decide_eq_true hx.isFinite
  have hyfinite := of_decide_eq_true hy.isFinite
  rw [← natAbs_key] at hxfinite hyfinite
  obtain ⟨z, hz, hkey⟩ := exists_key_eq (k := x.key + 1) (by omega)
  have hxz : x.toRat < z.toRat := toRat_lt_iff.mpr (by omega)
  have hzy : z.toRat < y.toRat := by
    refine toRat_lt_iff.mpr (lt_of_le_of_ne (by omega) fun heq => ?_)
    rw [← heq, hkey] at hyeven
    exact Int.not_even_iff_odd.mpr hxeven.add_one hyeven
  have hxle := hx.le hz
  have hyle := hy.le hz
  rcases le_total z.toRat q with hzq | hqz
  · rw [abs_of_nonpos (by linarith), abs_of_nonpos (by linarith)] at hxle
    linarith
  · rw [abs_of_nonneg (by linarith), abs_of_nonneg (by linarith)] at hyle
    linarith

/-- **Nearest words have one value.** -/
theorem unique (hx : IsNearest q x) (hy : IsNearest q y) : x.toRat = y.toRat :=
  le_antisymm (le_of_not_gt (hy.not_lt hx)) (le_of_not_gt (hx.not_lt hy))

/-- A nearest word is not below a word that the number is not below. -/
theorem le_toRat (hx : IsNearest q x) (hy : y.isFinite = true) (hle : y.toRat ≤ q) :
    y.toRat ≤ x.toRat := by
  have hnear := hx.le hy
  rw [abs_of_nonpos (by linarith : y.toRat - q ≤ 0)] at hnear
  linarith [neg_abs_le (x.toRat - q)]

/-- A nearest word is not above a word that the number is not above. -/
theorem toRat_le (hx : IsNearest q x) (hy : y.isFinite = true) (hle : q ≤ y.toRat) :
    x.toRat ≤ y.toRat := by
  have hnear := hx.le hy
  rw [abs_of_nonneg (by linarith : 0 ≤ y.toRat - q)] at hnear
  linarith [le_abs_self (x.toRat - q)]

/-- A finite word of the same value is nearest as well. -/
theorem congr (hx : IsNearest q x) (hy : y.isFinite = true) (heq : y.toRat = x.toRat) :
    IsNearest q y := by
  have hmagnitude := magnitude_eq_of_key (toRat_inj.mp heq)
  refine ⟨hy, fun hz => ?_, fun hz htie => ?_⟩
  · rw [heq]
    exact hx.le hz
  · rw [heq, fractionField, hmagnitude]
    exact hx.even hz (heq ▸ htie)

end IsNearest

/-! ### Exact numbers -/

/-- A number is **exact** if it is the value of a finite word. -/
def IsExact (q : ℚ) : Prop :=
  ∃ x : Binary64, x.isFinite = true ∧ x.toRat = q

namespace IsExact

variable {p q : ℚ} {x : Binary64}

/-- **The words nearest to an exact number** are the words of that value. -/
theorem isNearest_iff (hq : IsExact q) : IsNearest q x ↔ x.isFinite = true ∧ x.toRat = q := by
  obtain ⟨y, hy, rfl⟩ := hq
  constructor
  · intro hx
    have hle := hx.le hy
    rw [sub_self, abs_zero, abs_nonpos_iff, sub_eq_zero] at hle
    exact ⟨hx.isFinite, hle⟩
  · rintro ⟨hx, heq⟩
    refine ⟨hx, fun _ => ?_, fun _ htie => .inl ?_⟩
    · rw [heq, sub_self, abs_zero]
      exact abs_nonneg _
    · rw [heq, sub_self, abs_zero, abs_eq_zero, sub_eq_zero] at htie
      rw [htie, heq]

/-- No word is nearest to two exact numbers. -/
theorem eq_of_isNearest (hp : IsExact p) (hq : IsExact q) (hpx : IsNearest p x)
    (hqx : IsNearest q x) : p = q :=
  (hp.isNearest_iff.mp hpx).2.symm.trans (hq.isNearest_iff.mp hqx).2

end IsExact

/-! ### Integers -/

theorem signFactor_mul_natAbs (n : ℤ) : signFactor (decide (n < 0)) * n.natAbs = n := by
  rw [Nat.cast_natAbs, signFactor]
  rcases lt_or_ge n 0 with hneg | hpos
  · rw [if_pos (decide_eq_true hneg), abs_of_neg hneg, Int.cast_neg, neg_one_mul, neg_neg]
  · rw [if_neg (by simpa using hpos), abs_of_nonneg hpos, one_mul]

/-- **Integers of 64 bits are rounded to a nearest word**, which is always finite. -/
theorem ofInt_isNearest {n : ℤ} (hn : n.natAbs < 2 ^ 64) : IsNearest n (ofInt n) := by
  obtain ⟨digits, hone, hdigits⟩ : ∃ digits, unitsPerOne = 2 ^ digits ∧ digits = 1074 :=
    ⟨_, unitsPerOne_eq, rfl⟩
  have hbound : n.natAbs * unitsPerOne < 2 ^ (53 + (11 + digits)) * 1 := by
    calc n.natAbs * unitsPerOne
      _ < 2 ^ 64 * unitsPerOne := Nat.mul_lt_mul_of_pos_right hn unitsPerOne_pos
      _ = 2 ^ (53 + (11 + digits)) * 1 := by rw [hone, ← pow_add, Nat.mul_one]; ring_nf
  have hfinite : roundMagnitude (n.natAbs * unitsPerOne) 1 < infiniteMagnitude := by
    refine (roundMagnitude_le one_pos hbound).trans_lt ?_
    rw [hdigits]
    decide
  have hvalue : (n : ℚ) = signFactor (decide (n < 0)) *
      ((n.natAbs * unitsPerOne : ℕ) / (1 : ℕ) / unitsPerOne) := by
    rw [Nat.cast_mul, Nat.cast_one, div_one,
      mul_div_cancel_right₀ _ (Nat.cast_ne_zero.mpr unitsPerOne_pos.ne'), signFactor_mul_natAbs]
  rw [hvalue]
  exact roundRatio_isNearest _ one_pos hfinite

theorem ofInt_toInt_isNearest (n : Int64) : IsNearest n.toInt (ofInt n.toInt) := by
  have hlow := n.le_toInt
  have hhigh := n.toInt_lt
  exact ofInt_isNearest (by omega)

/-- **A word equals a rounded integer** just if it is nearest to the integer. -/
theorem ofInt_equals_iff (n : Int64) (x : Binary64) :
    (ofInt n.toInt).equals x = true ↔ IsNearest n.toInt x := by
  have hnearest := ofInt_toInt_isNearest n
  rw [equals_iff_of_isFinite hnearest.isFinite]
  exact ⟨fun ⟨hx, heq⟩ => hnearest.congr hx heq, fun hx => ⟨hx.isFinite, hx.unique hnearest⟩⟩

/-- Exact integers to which one word is nearest are equal. -/
theorem eq_of_isNearest_toInt {m n : Int64} {x : Binary64} (hm : IsExact m.toInt)
    (hn : IsExact n.toInt) (hmx : IsNearest m.toInt x) (hnx : IsNearest n.toInt x) : m = n :=
  Int64.toInt_inj.mp (Int.cast_inj.mp (hm.eq_of_isNearest hn hmx hnx))

/-- A positive integer up to `2 ^ 53`, with enough zeros after it, is a significand with its
leading one. -/
theorem exists_significand {n : Nat} (hpos : 0 < n) (hn : n ≤ 2 ^ 53) :
    ∃ zeros ≤ 52, binade ≤ n * 2 ^ zeros ∧ n * 2 ^ zeros ≤ 2 * binade := by
  refine ⟨52 - Nat.log2 n, Nat.sub_le _ _, ?_, ?_⟩
  · calc binade = 2 ^ 52 := by rfl
      _ ≤ 2 ^ (Nat.log2 n + (52 - Nat.log2 n)) := Nat.pow_le_pow_right two_pos (by omega)
      _ = 2 ^ Nat.log2 n * 2 ^ (52 - Nat.log2 n) := pow_add ..
      _ ≤ n * 2 ^ (52 - Nat.log2 n) := Nat.mul_le_mul_right _ (Nat.log2_self_le hpos.ne')
  · rcases Nat.le_total 52 (Nat.log2 n) with hmany | hfew
    · rw [Nat.sub_eq_zero_of_le hmany, Nat.pow_zero, Nat.mul_one]
      exact hn
    · calc n * 2 ^ (52 - Nat.log2 n)
        _ ≤ 2 ^ (Nat.log2 n + 1) * 2 ^ (52 - Nat.log2 n) :=
            Nat.mul_le_mul_right _ Nat.lt_log2_self.le
        _ = 2 * binade := by
            rw [← pow_add, show Nat.log2 n + 1 + (52 - Nat.log2 n) = 53 by omega]
            rfl

theorem exists_unitsAt_eq {n : Nat} (hn : n ≤ 2 ^ 53) :
    ∃ m < infiniteMagnitude, unitsAt m = n * unitsPerOne := by
  rcases Nat.eq_zero_or_pos n with rfl | hpos
  · exact ⟨0, by decide, (Nat.zero_mul _).symm⟩
  obtain ⟨zeros, hzeros, hlow, hhigh⟩ := exists_significand hpos hn
  obtain ⟨digits, hone, hdigits⟩ : ∃ digits, unitsPerOne = 2 ^ digits ∧ digits = 1074 :=
    ⟨_, unitsPerOne_eq, rfl⟩
  refine ⟨(digits - zeros) * binade + n * 2 ^ zeros, ?_, ?_⟩
  · calc (digits - zeros) * binade + n * 2 ^ zeros
      _ ≤ digits * binade + 2 * binade :=
          Nat.add_le_add (Nat.mul_le_mul_right _ (Nat.sub_le _ _)) hhigh
      _ < infiniteMagnitude := by
          rw [hdigits]
          decide
  · rw [unitsAt_split hhigh (.inr hlow), Nat.mul_assoc, ← pow_add,
      Nat.add_sub_of_le (by omega), hone]

/-- **Integers up to `2 ^ 53` in magnitude are exact.** -/
theorem isExact_of_natAbs_le {n : ℤ} (hn : n.natAbs ≤ 2 ^ 53) : IsExact n := by
  obtain ⟨m, hfinite, hunits⟩ := exists_unitsAt_eq hn
  have hlt := hfinite.trans (show infiniteMagnitude < signBit by decide)
  refine ⟨ofMagnitude (decide (n < 0)) m, ?_, ?_⟩
  · rw [isFinite, magnitude_ofMagnitude _ hlt]
    exact decide_eq_true hfinite
  · rw [toRat_eq_signFactor_mul, magnitude_ofMagnitude _ hlt, negative_ofMagnitude _ hlt, hunits,
      Nat.cast_mul, mul_div_cancel_right₀ _ (Nat.cast_ne_zero.mpr unitsPerOne_pos.ne'),
      signFactor_mul_natAbs]

end Binary64

end TaggedBytecode
