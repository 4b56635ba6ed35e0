import Mathlib
import TaggedBytecode.Host.Standard
import TaggedBytecode.Proofs.Binary64.Value
import TaggedBytecode.Proofs.Val.Containers

/-!
# Keys of Whole Floats

A whole float below `10 ^ 21` in magnitude is written as an integer, and maps and the storage
file it under this text. The integer has 64 bits. Between its bounds the text is the numeral of
the float, so different floats have different keys. Beyond them the float is held at a bound, and
all floats that are held at one bound, or are the lower bound itself, have one key: what is written
under one of them is read under the others.

## Main definitions

* `Val.HeldTogether` — two numbers that are held at the same bound of the 64-bit integers.

## Main results

* `Val.text_float_of_isWhole` — the text of a whole float.
* `Val.key_float_eq_iff` — which whole floats have one key.
* `Val.whole_texts_and_keys` — where whole floats keep their identity as texts and as keys.
-/

namespace TaggedBytecode

/-- An integer that 64 bits do not hold is replaced by the bound that it is beyond. -/
theorem toInt_clampInt64 (n : ℤ) : (clampInt64 n).toInt = max (-2 ^ 63) (min n (2 ^ 63 - 1)) := by
  rw [clampInt64]
  exact Int64.toInt_ofInt_of_le (by omega) (by omega)

theorem isInfinite_of_isFinite {x : Binary64} (h : x.isFinite = true) : x.isInfinite = false :=
  decide_eq_false (Nat.ne_of_lt (of_decide_eq_true h))

namespace Val

variable {x y : Binary64} {m n : ℤ}

/-! ### Texts -/

/-- The text of a whole float below `10 ^ 21` is that of an integer of 64 bits. -/
theorem text_float_of_isWhole (hx : x.IsWhole m) (hm : m.natAbs < 10 ^ 21) :
    (float x).text = toString (max (-2 ^ 63) (min m (2 ^ 63 - 1))) := by
  have hwhole : (x.isIntegral && decide (x.truncate.natAbs < wholeTextLimit)) = true := by
    rw [Binary64.isIntegral_iff.mpr ⟨m, hx⟩, hx.truncate_eq]
    exact decide_eq_true hm
  rw [text, numberText, Binary64.isNaN_of_isFinite hx.1, isInfinite_of_isFinite hx.1,
    if_neg Bool.false_ne_true, if_neg Bool.false_ne_true, if_pos hwhole, hx.truncate_eq,
    toInt_clampInt64]

theorem toString_int_inj {a b : ℤ} : toString a = toString b ↔ a = b :=
  Int.repr_inj

/-! ### Keys -/

/-- Two numbers are **held together** if both are beyond the same bound of the 64-bit integers.
The lower bound is a float itself and counts among those that it holds. -/
def HeldTogether (m n : ℤ) : Prop :=
  2 ^ 63 ≤ m ∧ 2 ^ 63 ≤ n ∨ m ≤ -2 ^ 63 ∧ n ≤ -2 ^ 63

instance (m n : ℤ) : Decidable (HeldTogether m n) :=
  inferInstanceAs (Decidable (_ ∨ _))

/-- The upper bound is no float: floats from `2 ^ 62` on are even. -/
theorem ne_upper_of_isWhole (hx : x.IsWhole m) : m ≠ 2 ^ 63 - 1 := by
  rintro rfl
  have heven : (2 ^ 10 : ℤ) ∣ x.truncate :=
    Binary64.two_pow_dvd_truncate (by rw [hx.truncate_eq]; decide)
  rw [hx.truncate_eq] at heven
  exact absurd heven (by decide)

/-- **Whole floats have one key** just if they are the same number or held together. -/
theorem key_float_eq_iff (hx : x.IsWhole m) (hm : m.natAbs < 10 ^ 21) (hy : y.IsWhole n)
    (hn : n.natAbs < 10 ^ 21) :
    (float y).key = (float x).key ↔ m = n ∨ HeldTogether m n := by
  have hxupper := ne_upper_of_isWhole hx
  have hyupper := ne_upper_of_isWhole hy
  change (float y).text = (float x).text ↔ _
  rw [text_float_of_isWhole hx hm, text_float_of_isWhole hy hn, toString_int_inj, HeldTogether]
  omega

/-! ### Maps and the storage -/

variable {key other : Val}

theorem run_storageGet (hkey : key ≠ undefined) (world : World) :
    (Host.storageGet [key]).run.run world =
      (.ok ((Assoc.get? key.key world.storage).getD null), world) := by
  cases key with
  | undefined => exact absurd rfl hkey
  | _ => rfl

theorem run_storageSet (hkey : key ≠ undefined) (value : Val) (world : World) :
    (Host.storageSet [key, value]).run.run world =
      (.ok undefined,
        { world with storage := Assoc.insert key.key (str value.text) world.storage }) := by
  cases key with
  | undefined => exact absurd rfl hkey
  | _ => rfl

/-- After a write to the storage, the text of the value is read under every key of the same
text. -/
theorem storageGet_of_storageSet (hkey : key ≠ undefined) (hother : other ≠ undefined)
    (value : Val) (world : World) :
    ∃ after, (Host.storageSet [key, value]).run.run world = (.ok undefined, after) ∧
      ((Host.storageGet [other]).run.run after).1 =
        if other.key = key.key then .ok (str value.text)
        else ((Host.storageGet [other]).run.run world).1 := by
  refine ⟨_, run_storageSet hkey value world, ?_⟩
  rw [run_storageGet hother, run_storageGet hother, Assoc.get?_insert]
  split <;> rfl

/-! ### Identity of whole floats -/

/-- **Where whole floats keep their identity as texts and as keys.** Below `10 ^ 21` in magnitude,
the text of a whole float is its numeral just if 64 bits hold the number. Beyond a bound it is the
numeral of the bound. So two whole floats have different keys, and a map and the storage keep the
entries of the one apart from those of the other, unless they are the same number or held at the
same bound. -/
theorem whole_texts_and_keys (hx : x.IsWhole m) (hm : m.natAbs < 10 ^ 21) (hy : y.IsWhole n)
    (hn : n.natAbs < 10 ^ 21) (identity old : Nat) (entries : List (String × Val)) (value : Val)
    (world : World) :
    ((float x).text = toString m ↔ -2 ^ 63 ≤ m ∧ m < 2 ^ 63) ∧
    (2 ^ 63 ≤ m → (float x).text = toString (2 ^ 63 - 1 : ℤ)) ∧
    (m ≤ -2 ^ 63 → (float x).text = toString (-2 ^ 63 : ℤ)) ∧
    ((float y).key = (float x).key ↔ m = n ∨ HeldTogether m n) ∧
    (∃ updated, (map old entries).setProperty identity (float x) value = .ok updated ∧
      updated.getProperty (float y) =
        if m = n ∨ HeldTogether m n then value else (map old entries).getProperty (float y)) ∧
    ∃ after, (Host.storageSet [float x, value]).run.run world = (.ok undefined, after) ∧
      ((Host.storageGet [float y]).run.run after).1 =
        if m = n ∨ HeldTogether m n then .ok (str value.text)
        else ((Host.storageGet [float y]).run.run world).1 := by
  have hkey := key_float_eq_iff hx hm hy hn
  have hmap := getProperty_of_setProperty_map identity old entries (float x) value (float y)
  have hstorage := storageGet_of_storageSet (nofun : float x ≠ undefined)
    (nofun : float y ≠ undefined) value world
  simp only [hkey] at hmap hstorage
  refine ⟨?_, fun hlarge => ?_, fun hsmall => ?_, hkey, hmap, hstorage⟩
  · rw [text_float_of_isWhole hx hm, toString_int_inj]
    omega
  · rw [text_float_of_isWhole hx hm, min_eq_right (by omega), max_eq_right (by omega)]
  · rw [text_float_of_isWhole hx hm, min_eq_left (by omega), max_eq_left hsmall]

/-- The float `2 ^ 63`, the least one that 64 bits do not hold. -/
def twoPow63 : Binary64 := ⟨0x43e0000000000000⟩

/-- The float `2 ^ 64`. -/
def twoPow64 : Binary64 := ⟨0x43f0000000000000⟩

/-- Negative zero has the numeral of zero and a key of its own, and the two powers of two have the
same key. -/
theorem whole_texts_and_keys_twoPow63 :
    (Binary64.zero true).IsWhole 0 ∧ twoPow63.IsWhole (2 ^ 63) ∧ twoPow64.IsWhole (2 ^ 64) ∧
      (float (Binary64.zero true)).text = "0" ∧
      (float twoPow63).key ≠ (float (Binary64.zero true)).key ∧
      (float twoPow63).text = "9223372036854775807" ∧
      (float twoPow64).key = (float twoPow63).key ∧
      ∃ updated, (map 0 []).setProperty 1 (float twoPow63) (int 7) = .ok updated ∧
        updated.getProperty (float twoPow64) = int 7 := by
  have hzero : (Binary64.zero true).IsWhole 0 := by decide +kernel
  have hlow : twoPow63.IsWhole (2 ^ 63) := by decide +kernel
  have hhigh : twoPow64.IsWhole (2 ^ 64) := by decide +kernel
  obtain ⟨htext, -, -, hkey, -⟩ :=
    whole_texts_and_keys hzero (by decide) hlow (by decide) 1 0 [] (int 7) {}
  obtain ⟨-, hbound, -, hsame, ⟨updated, hset, hread⟩, -⟩ :=
    whole_texts_and_keys hlow (by decide) hhigh (by decide) 1 0 [] (int 7) {}
  refine ⟨hzero, hlow, hhigh, htext.mpr (by decide), fun heq => ?_, hbound le_rfl,
    hsame.mpr (by decide), updated, hset, hread.trans (if_pos (by decide))⟩
  exact absurd (hkey.mp heq) (by decide)

/-- The float `2 ^ 63` is whole and below `10 ^ 21`, and yet its text is another numeral, which
is also the key of `2 ^ 64`. -/
theorem not_whole_texts_and_keys_twoPow63 :
    (¬ ∀ (x : Binary64) (m : ℤ), x.IsWhole m → m.natAbs < 10 ^ 21 →
      (float x).text = toString m) ∧
    ¬ ∀ (x y : Binary64) (m n : ℤ), x.IsWhole m → y.IsWhole n → m.natAbs < 10 ^ 21 →
      n.natAbs < 10 ^ 21 → m ≠ n → (float x).key ≠ (float y).key := by
  have hlow : twoPow63.IsWhole (2 ^ 63) := by decide +kernel
  have hhigh : twoPow64.IsWhole (2 ^ 64) := by decide +kernel
  constructor
  · intro htext
    have heq := htext _ _ hlow (by decide)
    rw [text_float_of_isWhole hlow (by decide), toString_int_inj] at heq
    exact absurd heq (by decide)
  · intro hkeys
    refine hkeys _ _ _ _ hhigh hlow (by decide) (by decide) (by decide) ?_
    exact (key_float_eq_iff hlow (by decide) hhigh (by decide)).mpr (.inr (by decide))

end Val

end TaggedBytecode
