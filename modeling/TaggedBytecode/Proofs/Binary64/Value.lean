import Mathlib
import TaggedBytecode.Binary64.Basic

/-!
# Exact Values of Binary64 Words

The **exact value** of a finite word is a rational number that its three fields spell. Counted in
units of `2 ^ (-1074)` it is an integer, and it grows with the word: the magnitudes of finite words
number their absolute values from zero on without a gap. So comparing words by their index is
comparing their values, and between neighbouring words there is none.

## Main definitions

* `Binary64.toRat` — the exact value of a finite word.
* `Binary64.unitsAt` — the units of a magnitude.
* `Binary64.wholePart` — the whole part of a rational number.
* `Binary64.IsWhole` — a finite word that is an integer.

## Main results

* `Binary64.toRat_eq` — the exact value in units.
* `Binary64.unitsAt_split` — the units of a magnitude that is so many binades above a significand.
* `Binary64.strictMono_unitsAt` — greater magnitudes have more units.
* `Binary64.toRat_lt_iff`, `Binary64.equals_iff_of_isFinite` — comparing words is comparing their
  values.
* `Binary64.truncate_eq` — truncation gives the whole part of the exact value.
* `Binary64.isIntegral_iff` — which words are integers.
-/

namespace TaggedBytecode.Binary64

/-- The **exact value** of a finite word, read off its sign bit, its eleven exponent bits and its
fifty-two fraction bits. -/
def toRat (x : Binary64) : ℚ :=
  let sign : ℚ := if x.bits.toNat / 2 ^ 63 = 1 then -1 else 1
  let exponent : ℕ := x.bits.toNat / 2 ^ 52 % 2 ^ 11
  let fraction : ℚ := (x.bits.toNat % 2 ^ 52 : ℕ) / 2 ^ 52
  if exponent = 0 then sign * fraction * 2 ^ (-1022 : ℤ)
  else sign * (1 + fraction) * 2 ^ ((exponent : ℤ) - 1023)

/-! ### Fields -/

theorem magnitude_ofMagnitude (negative : Bool) {m : Nat} (hm : m < signBit) :
    (ofMagnitude negative m).magnitude = m := by
  simp only [magnitude, ofMagnitude, signBit, UInt64.toNat_ofNat'] at *
  split <;> omega

theorem negative_ofMagnitude (negative : Bool) {m : Nat} (hm : m < signBit) :
    (ofMagnitude negative m).negative = negative := by
  simp only [Binary64.negative, ofMagnitude, signBit, UInt64.toNat_ofNat'] at *
  cases negative <;> simp <;> omega

theorem fraction_eq (x : Binary64) : x.bits.toNat % 2 ^ 52 = x.fractionField := by
  simp only [fractionField, magnitude, signBit, binade]
  omega

theorem exponent_eq (x : Binary64) : x.bits.toNat / 2 ^ 52 % 2 ^ 11 = x.exponentField := by
  have hlt := x.bits.toNat_lt
  simp only [exponentField, magnitude, signBit, binade]
  omega

theorem sign_eq (x : Binary64) : x.bits.toNat / 2 ^ 63 = 1 ↔ x.negative = true := by
  have hlt := x.bits.toNat_lt
  rw [negative, decide_eq_true_iff, signBit]
  omega

/-! ### Units of a magnitude -/

/-- The units that a magnitude stands for. -/
def unitsAt (magnitude : Nat) : Nat :=
  if magnitude / binade = 0 then magnitude % binade
  else (binade + magnitude % binade) * 2 ^ (magnitude / binade - 1)

theorem units_eq (x : Binary64) : x.units = unitsAt x.magnitude := rfl

/-- A magnitude that is `k` binades above a **significand** stands for that many units, scaled by
`2 ^ k`. The significand may be the first one of the next binade. -/
theorem unitsAt_split {k significand : Nat} (hle : significand ≤ 2 * binade)
    (h : k = 0 ∨ binade ≤ significand) :
    unitsAt (k * binade + significand) = significand * 2 ^ k := by
  have hpos : 0 < binade := by decide
  rcases Nat.lt_or_ge significand binade with hlt | hge
  · obtain rfl := h.resolve_right (Nat.not_le_of_lt hlt)
    simp [unitsAt, Nat.div_eq_of_lt hlt, Nat.mod_eq_of_lt hlt]
  · obtain ⟨fraction, rfl⟩ := Nat.exists_eq_add_of_le hge
    rw [show k * binade + (binade + fraction) = fraction + binade * (k + 1) by ring, unitsAt,
      Nat.add_mul_div_left _ _ hpos, Nat.add_mul_mod_self_left]
    rcases Nat.lt_or_eq_of_le (Nat.le_of_add_le_add_left (Nat.two_mul binade ▸ hle)) with hlt | rfl
    · rw [Nat.div_eq_of_lt hlt, Nat.mod_eq_of_lt hlt, Nat.zero_add, if_neg k.succ_ne_zero]
      rfl
    · rw [Nat.div_self hpos, Nat.mod_self, Nat.add_zero, ← Nat.two_mul, Nat.mul_comm 2,
        Nat.mul_assoc, ← Nat.pow_succ']
      rw [if_neg (by omega), show 1 + (k + 1) - 1 = k.succ by omega, Nat.add_zero]

/-- Every magnitude is some binades above a significand. -/
theorem exists_split (m : Nat) : ∃ k significand, m = k * binade + significand ∧
    significand < 2 * binade ∧ (k = 0 ∨ binade ≤ significand) := by
  by_cases hm : m < binade
  · exact ⟨0, m, by omega, by omega, .inl rfl⟩
  · refine ⟨m / binade - 1, binade + m % binade, ?_, ?_, .inr (Nat.le_add_right _ _)⟩
    · simp only [binade] at *
      omega
    · simp only [binade]
      omega

/-- **Greater magnitudes stand for more units**: the next magnitude is the next significand in
the same binade. -/
theorem strictMono_unitsAt : StrictMono unitsAt := by
  refine strictMono_nat_of_lt_succ fun m => ?_
  obtain ⟨k, significand, rfl, hlt, h⟩ := exists_split m
  rw [unitsAt_split (Nat.le_of_lt hlt) h, Nat.add_assoc,
    unitsAt_split hlt (h.imp_right Nat.le_succ_of_le)]
  exact Nat.mul_lt_mul_of_pos_right (Nat.lt_succ_self _) (Nat.two_pow_pos k)

/-- **The grid of a binade**: from the first significand of a binade on, all units are multiples
of its spacing. -/
theorem two_pow_dvd_unitsAt {k m : Nat} (h : binade * 2 ^ k ≤ unitsAt m) : 2 ^ k ∣ unitsAt m := by
  obtain ⟨j, significand, rfl, hlt, hsplit⟩ := exists_split m
  rw [unitsAt_split (Nat.le_of_lt hlt) hsplit] at h ⊢
  have hbelow : binade * 2 ^ k < binade * 2 ^ (j + 1) := by
    calc binade * 2 ^ k ≤ significand * 2 ^ j := h
      _ < 2 * binade * 2 ^ j := Nat.mul_lt_mul_of_pos_right hlt (Nat.two_pow_pos j)
      _ = binade * 2 ^ (j + 1) := by ring
  have hkj : k < j + 1 := (Nat.pow_lt_pow_iff_right Nat.one_lt_two).mp
    (Nat.lt_of_mul_lt_mul_left hbelow)
  exact (Nat.pow_dvd_pow 2 (Nat.le_of_lt_succ hkj)).mul_left significand

/-! ### Signed units -/

theorem sign_mul_unitsAt (m : ℕ) : (m : ℤ).sign * (unitsAt m : ℤ) = unitsAt m := by
  rcases Nat.eq_zero_or_pos m with rfl | hpos
  · rfl
  · rw [Int.sign_eq_one_of_pos (Int.natCast_pos.mpr hpos), one_mul]

/-- The signed units are the units of the index, which has the sign of the word. -/
theorem signedUnits_eq (x : Binary64) : x.signedUnits = x.key.sign * unitsAt x.key.natAbs := by
  rw [signedUnits, key, units_eq]
  split
  · rw [Int.sign_neg, Int.natAbs_neg, Int.natAbs_natCast, neg_mul, sign_mul_unitsAt]
  · rw [Int.natAbs_natCast, sign_mul_unitsAt]

/-- The factor that a sign bit contributes. -/
def signFactor (negative : Bool) : ℚ :=
  if negative = true then -1 else 1

theorem abs_signFactor (negative : Bool) : |signFactor negative| = 1 := by
  cases negative <;> simp [signFactor]

theorem abs_signFactor_mul (negative : Bool) {q : ℚ} (hq : 0 ≤ q) :
    |signFactor negative * q| = q := by
  rw [abs_mul, abs_signFactor, one_mul, abs_of_nonneg hq]

theorem cast_signedUnits (x : Binary64) :
    (x.signedUnits : ℚ) = signFactor x.negative * x.units := by
  rw [signedUnits, signFactor]
  split <;> simp

/-- A greater index has more signed units. -/
theorem strictMono_signedUnitsAt :
    StrictMono fun key : ℤ => key.sign * (unitsAt key.natAbs : ℤ) := by
  refine strictMono_of_odd_strictMonoOn_nonneg (fun key => ?_) fun a ha b hb hab => ?_
  · rw [Int.sign_neg, Int.natAbs_neg, neg_mul]
  · obtain ⟨m, rfl⟩ := Int.eq_ofNat_of_zero_le ha
    obtain ⟨n, rfl⟩ := Int.eq_ofNat_of_zero_le hb
    simp only [Int.natAbs_natCast, sign_mul_unitsAt]
    exact Int.ofNat_lt.mpr (strictMono_unitsAt (Int.ofNat_lt.mp hab))

theorem signedUnits_lt_iff {x y : Binary64} : x.signedUnits < y.signedUnits ↔ x.key < y.key := by
  rw [signedUnits_eq, signedUnits_eq]
  exact strictMono_signedUnitsAt.lt_iff_lt

theorem signedUnits_inj {x y : Binary64} : x.signedUnits = y.signedUnits ↔ x.key = y.key := by
  rw [signedUnits_eq, signedUnits_eq]
  exact strictMono_signedUnitsAt.injective.eq_iff

/-! ### Exact values -/

theorem unitsPerOne_eq : unitsPerOne = 2 ^ 1074 := by
  unfold unitsPerOne
  generalize 1074 = n
  rfl

theorem unitsPerOne_pos : 0 < unitsPerOne := by
  rw [unitsPerOne_eq]
  positivity

theorem cast_unitsPerOne : (unitsPerOne : ℚ) = 2 ^ 52 * 2 ^ 1022 := by
  rw [unitsPerOne_eq, Nat.cast_pow, Nat.cast_ofNat, ← pow_add]

/-- **The exact value in units.** -/
theorem toRat_eq (x : Binary64) : x.toRat = x.signedUnits / unitsPerOne := by
  have hunits : (x.units : ℚ) / unitsPerOne =
      if x.exponentField = 0 then (x.fractionField : ℚ) / 2 ^ 52 * 2 ^ (-1022 : ℤ)
      else (1 + (x.fractionField : ℚ) / 2 ^ 52) * 2 ^ ((x.exponentField : ℤ) - 1023) := by
    rw [units, spacing, cast_unitsPerOne]
    by_cases hexponent : x.exponentField = 0
    · rw [if_pos hexponent, if_pos hexponent, zpow_neg, zpow_ofNat, div_mul_eq_div_div]
      rfl
    · obtain ⟨k, hk⟩ := Nat.exists_eq_succ_of_ne_zero hexponent
      have hpower : ((x.exponentField : ℤ) - 1023 : ℤ) = (k : ℤ) - 1022 := by omega
      rw [if_neg hexponent, if_neg hexponent, hpower, zpow_sub₀ two_ne_zero, zpow_natCast,
        zpow_ofNat, hk, Nat.succ_sub_one, Nat.pow_eq, binade]
      have hpos : (0 : ℚ) < 2 ^ 1022 := by positivity
      generalize (2 : ℚ) ^ 1022 = least at hpos
      push_cast
      field_simp
      ring
  rw [cast_signedUnits, signFactor, mul_div_assoc, hunits, toRat]
  simp only [fraction_eq, exponent_eq, sign_eq]
  split <;> rw [mul_assoc]

/-- The exact value as a sign and an absolute value. -/
theorem toRat_eq_signFactor_mul (x : Binary64) :
    x.toRat = signFactor x.negative * (unitsAt x.magnitude / unitsPerOne) := by
  rw [toRat_eq, cast_signedUnits, mul_div_assoc, units_eq]

theorem abs_toRat (x : Binary64) : |x.toRat| = unitsAt x.magnitude / unitsPerOne := by
  rw [toRat_eq_signFactor_mul, abs_signFactor_mul]
  positivity

theorem toRat_lt_iff {x y : Binary64} : x.toRat < y.toRat ↔ x.key < y.key := by
  rw [toRat_eq, toRat_eq, div_lt_div_iff_of_pos_right (Nat.cast_pos.mpr unitsPerOne_pos),
    Int.cast_lt, signedUnits_lt_iff]

theorem toRat_inj {x y : Binary64} : x.toRat = y.toRat ↔ x.key = y.key := by
  rw [toRat_eq, toRat_eq, div_left_inj' (Nat.cast_ne_zero.mpr unitsPerOne_pos.ne'), Int.cast_inj,
    signedUnits_inj]

theorem toRat_zero (negative : Bool) : (zero negative).toRat = 0 := by
  have hunits : unitsAt 0 = 0 := rfl
  rw [toRat_eq_signFactor_mul, zero, magnitude_ofMagnitude negative (by decide), hunits,
    Nat.cast_zero, zero_div, mul_zero]

/-! ### Numeric equality -/

theorem natAbs_key (x : Binary64) : x.key.natAbs = x.magnitude := by
  rw [key]
  split <;> simp

theorem magnitude_eq_of_key {x y : Binary64} (h : x.key = y.key) : x.magnitude = y.magnitude := by
  rw [← natAbs_key, ← natAbs_key, h]

/-- **Every index below that of infinity** belongs to a finite word. -/
theorem exists_key_eq {k : ℤ} (hk : k.natAbs < infiniteMagnitude) :
    ∃ x : Binary64, x.isFinite = true ∧ x.key = k := by
  have hlt : k.natAbs < signBit := hk.trans (by decide)
  refine ⟨ofMagnitude (decide (k < 0)) k.natAbs, ?_, ?_⟩
  · rw [isFinite, magnitude_ofMagnitude _ hlt]
    exact decide_eq_true hk
  · rw [key, negative_ofMagnitude _ hlt, magnitude_ofMagnitude _ hlt]
    split <;> rename_i hneg <;> rw [decide_eq_true_iff] at hneg <;> omega

theorem isNaN_of_isFinite {x : Binary64} (h : x.isFinite = true) : x.isNaN = false :=
  decide_eq_false (Nat.lt_asymm (of_decide_eq_true h))

/-- Numeric equality is equality of the index, and no NaN is equal to anything. -/
theorem equals_eq_true_iff {x y : Binary64} :
    x.equals y = true ↔ x.isNaN = false ∧ y.isNaN = false ∧ x.key = y.key := by
  simp [equals, and_assoc]

theorem equals_comm (x y : Binary64) : x.equals y = y.equals x := by
  rw [Bool.eq_iff_iff, equals_eq_true_iff, equals_eq_true_iff]
  constructor <;> exact fun ⟨hx, hy, hkey⟩ => ⟨hy, hx, hkey.symm⟩

theorem equals_trans {x y z : Binary64} (hxy : x.equals y = true) (hyz : y.equals z = true) :
    x.equals z = true := by
  rw [equals_eq_true_iff] at *
  exact ⟨hxy.1, hyz.2.1, hxy.2.2.trans hyz.2.2⟩

/-- **Words that equal a finite word** are the finite words of the same exact value. -/
theorem equals_iff_of_isFinite {x y : Binary64} (hx : x.isFinite = true) :
    x.equals y = true ↔ y.isFinite = true ∧ y.toRat = x.toRat := by
  rw [equals_eq_true_iff, toRat_inj]
  constructor
  · rintro ⟨-, -, hkey⟩
    refine ⟨?_, hkey.symm⟩
    rw [isFinite, ← magnitude_eq_of_key hkey]
    exact hx
  · rintro ⟨hy, hkey⟩
    exact ⟨isNaN_of_isFinite hx, isNaN_of_isFinite hy, hkey.symm⟩

/-! ### Whole parts -/

/-- The whole part of a rational number, which drops the fraction toward zero. -/
def wholePart (q : ℚ) : ℤ :=
  if 0 ≤ q then ⌊q⌋ else ⌈q⌉

theorem wholePart_neg (q : ℚ) : wholePart (-q) = -wholePart q := by
  rcases lt_trichotomy 0 q with hpos | rfl | hneg
  · rw [wholePart, wholePart, if_neg (by linarith), if_pos hpos.le, Int.ceil_neg]
  · simp [wholePart]
  · rw [wholePart, wholePart, if_pos (by linarith), if_neg (by linarith), Int.floor_neg]

/-- The whole part stays below a positive integer just as long as the number does. -/
theorem wholePart_lt_iff {q : ℚ} {n : ℤ} (hn : 0 < n) : wholePart q < n ↔ q < n := by
  rw [wholePart]
  split
  · exact Int.floor_lt
  · rename_i hneg
    have hq : q < n := (lt_of_not_ge hneg).trans (Int.cast_pos.mpr hn)
    have hceil : ⌈q⌉ ≤ 0 := Int.ceil_le.mpr (by simpa using (lt_of_not_ge hneg).le)
    exact iff_of_true (hceil.trans_lt hn) hq

theorem natAbs_truncate (x : Binary64) : x.truncate.natAbs = x.units / unitsPerOne := by
  rw [truncate]
  split
  · rw [Int.natAbs_neg, Int.natAbs_natCast]
  · exact Int.natAbs_natCast _

/-- **Truncation drops the fraction of the exact value.** -/
theorem truncate_eq (x : Binary64) : x.truncate = wholePart x.toRat := by
  have hwhole : wholePart ((x.units : ℚ) / unitsPerOne) = (x.units / unitsPerOne : ℕ) := by
    rw [wholePart, if_pos (by positivity)]
    exact Rat.floor_intCast_div_natCast x.units unitsPerOne
  rw [truncate, toRat_eq, signedUnits]
  cases x.negative with
  | false => exact hwhole.symm
  | true =>
      rw [if_pos rfl, if_pos rfl, Int.cast_neg, neg_div, wholePart_neg, Int.cast_natCast, hwhole]

/-- **Great words are multiples of powers of two**: with a whole part of more than `53 + k` digits
a word has no fraction, and its last `k` digits are zero. -/
theorem two_pow_dvd_truncate {x : Binary64} {k : Nat} (h : binade * 2 ^ k ≤ x.truncate.natAbs) :
    (2 ^ k : ℤ) ∣ x.truncate := by
  have hpower : 2 ^ (k + 1074) = unitsPerOne * 2 ^ k := by
    rw [unitsPerOne_eq]
    generalize 1074 = n
    ring
  rw [natAbs_truncate, Nat.le_div_iff_mul_le unitsPerOne_pos, Nat.mul_assoc,
    Nat.mul_comm (2 ^ k), ← hpower, units_eq] at h
  have hdvd : 2 ^ k ∣ x.truncate.natAbs := by
    rw [natAbs_truncate, units_eq]
    exact Nat.dvd_div_of_mul_dvd (hpower ▸ two_pow_dvd_unitsAt h)
  exact_mod_cast Int.natCast_dvd.mpr hdvd

/-! ### Whole words -/

/-- A finite word that **is an integer**: its exact value is one. -/
def IsWhole (x : Binary64) (n : ℤ) : Prop := x.isFinite = true ∧ x.toRat = n

instance (x : Binary64) (n : ℤ) : Decidable (x.IsWhole n) :=
  inferInstanceAs (Decidable (_ ∧ _))

theorem natAbs_signedUnits (x : Binary64) : x.signedUnits.natAbs = x.units := by
  rw [signedUnits]
  split
  · rw [Int.natAbs_neg, Int.natAbs_natCast]
  · exact Int.natAbs_natCast _

theorem toRat_eq_intCast_iff {x : Binary64} {n : ℤ} :
    x.toRat = n ↔ x.signedUnits = n * unitsPerOne := by
  rw [toRat_eq, div_eq_iff (Nat.cast_ne_zero.mpr unitsPerOne_pos.ne')]
  exact_mod_cast Iff.rfl

/-- **Integral words** are those that are some integer: their units make up whole ones. -/
theorem isIntegral_iff {x : Binary64} : x.isIntegral = true ↔ ∃ n, x.IsWhole n := by
  have hdvd : x.units % unitsPerOne = 0 ↔ ∃ n : ℤ, x.toRat = n := by
    simp only [toRat_eq_intCast_iff]
    rw [← Nat.dvd_iff_mod_eq_zero, ← natAbs_signedUnits, ← Int.natCast_dvd]
    exact dvd_iff_exists_eq_mul_left
  simp only [isIntegral, Bool.and_eq_true, beq_iff_eq, hdvd, IsWhole, exists_and_left]

namespace IsWhole

variable {x : Binary64} {m n : ℤ}

/-- A word is one integer only. -/
theorem unique (hm : x.IsWhole m) (hn : x.IsWhole n) : m = n :=
  Int.cast_inj.mp (hm.2.symm.trans hn.2)

theorem truncate_eq (h : x.IsWhole n) : x.truncate = n := by
  rw [Binary64.truncate_eq, h.2, wholePart]
  split
  · exact Int.floor_intCast n
  · exact Int.ceil_intCast n

end IsWhole

/-- The sign of a value: only words other than zero can be negative. -/
theorem toRat_nonneg_iff {x : Binary64} :
    0 ≤ x.toRat ↔ x.negative = false ∨ x.magnitude = 0 := by
  have hzero : (zero false).key = 0 := by decide
  rw [← toRat_zero false, ← not_lt, toRat_lt_iff, hzero, not_lt, key]
  cases x.negative <;> simp

end TaggedBytecode.Binary64
