import TaggedBytecode.Proofs.Stream.Numeral

/-!
# Decoding Streams

Decoding accepts the streams that are sequences of numerals, and a slot has the low bits of the
exact value of its numeral: the number that is kept while a numeral is read wraps, but a number
that has wrapped still agrees with the exact one in its low bits.

## Main results

* `Alphabet.decodeFrom_spelling` — one numeral is read as one slot.
* `Alphabet.decodeFrom_outcome` — how reading ends, for all characters.
* `Alphabet.streams_are_numeral_sequences` — which streams are accepted, what they stand for, and
  where the others are at fault.
-/

namespace TaggedBytecode

namespace Alphabet

variable {a : Alphabet}

/-! ### Reading numerals -/

/-- The slot that a numeral stands for. -/
def Numeral.slot (n : a.Numeral) : Int32 := (UInt64.ofNat n.value).toUInt32.toInt32

/-- The bits of a slot are the low bits of the exact value. -/
theorem Numeral.toNat_slot (n : a.Numeral) : n.slot.toUInt32.toNat = n.value % 2 ^ 32 := by
  rw [slot, UInt32.toUInt32_toInt32, UInt64.toNat_toUInt32, UInt64.toNat_ofNat']
  omega

/-- The slot that is the value of a numeral, in bits. -/
theorem Numeral.slot_eq {n : a.Numeral} {v : Int32} (h : n.value = v.toUInt32.toNat) :
    n.slot = v := by
  have hbits : n.slot.toUInt32 = v.toUInt32 := by
    apply UInt32.toNat_inj.mp
    rw [n.toNat_slot, h]
    exact Nat.mod_eq_of_lt v.toUInt32.toNat_lt
  rw [← Int32.toInt32_toUInt32 n.slot, hbits, Int32.toInt32_toUInt32]

/-- What a number comes to when a numeral finishes it. -/
def Partial.close (number : Partial) (n : a.Numeral) : Int32 :=
  (number.value + number.worth * UInt64.ofNat n.value).toUInt32.toInt32

theorem Partial.close_default (n : a.Numeral) : Partial.close {} n = n.slot := by
  rw [close, Numeral.slot, UInt64.zero_add, UInt64.one_mul]

/-- A numeral, behind digits that left a number unfinished, is read as one slot. Induction on
the numeral; what carries it is that the number so far and the worth of the next place agree
with the exact ones modulo `2 ^ 64`. -/
theorem decodeFrom_spelling (n : a.Numeral) (position : Nat) (open? : Option Partial)
    (rest : List Char) :
    a.decodeFrom position open? (n.spelling ++ rest) =
      (a.decodeFrom (position + n.spelling.length) none rest).map
        ((open?.getD {}).close n :: ·) := by
  induction n using Numeral.induction generalizing position open? with
  | single last hlast =>
      simp only [Numeral.spelling_single, List.singleton_append, List.length_singleton]
      rw [decodeFrom, index?_digit_of_lt_base hlast]
      simp only [if_pos hlast, Nat.mod_eq_of_lt hlast, Partial.close, Numeral.value_single]
  | cons i hi n ih =>
      have hclose : Partial.close
          ⟨(open?.getD {}).value + (open?.getD {}).worth * UInt64.ofNat (i % a.base) +
              UInt64.ofNat a.base * (open?.getD {}).worth,
            (open?.getD {}).worth * UInt64.ofNat a.radix⟩ n =
          (open?.getD {}).close (Numeral.cons i hi n) := by
        simp only [Partial.close, Numeral.value_cons, UInt64.ofNat_add, UInt64.ofNat_mul]
        congr 2
        grind
      rw [Numeral.spelling_cons, List.cons_append, decodeFrom, index?_digit hi.2]
      simp only [if_neg (Nat.not_lt_of_le hi.1), ih, Option.getD_some, hclose]
      rw [List.length_cons, Nat.add_assoc, Nat.add_comm 1]

/-- A sequence of numerals is read as their slots. -/
theorem decodeFrom_spellings (numerals : List a.Numeral) (position : Nat) :
    a.decodeFrom position none (numerals.flatMap Numeral.spelling) =
      .ok (numerals.map Numeral.slot) := by
  induction numerals generalizing position with
  | nil => rfl
  | cons n numerals ih =>
      rw [List.flatMap_cons, decodeFrom_spelling, ih, Option.getD_none, Partial.close_default]
      rfl

theorem decode_spellings {numerals : List a.Numeral} {text : String}
    (h : numerals.flatMap Numeral.spelling = text.toList) :
    a.decode text = .ok (numerals.map Numeral.slot) := by
  rw [decode, ← h, decodeFrom_spellings]

/-! ### Where reading ends -/

/-- Whether no number is open behind some characters, given whether one is open in front. -/
def closes (a : Alphabet) (open? : Option Partial) (cs : List Char) : Bool :=
  (cs.getLast?.map a.isFinal).getD open?.isNone

theorem closes_cons {c : Char} {i : Nat} (h : a.index? c = some i) (open? : Option Partial)
    (number : Partial) (rest : List Char) :
    a.closes open? (c :: rest) =
      a.closes (if i < a.base then none else some number) rest := by
  rw [closes, closes, List.getLast?_cons]
  cases rest.getLast? with
  | some d => rfl
  | none =>
      simp only [Option.getD_none, Option.map_some, Option.getD_some, Option.map_none,
        isFinal_of_index? h]
      split <;> simp [*]

/-- How the reading of some characters ends: with slots, inside a number, or at the first
character that is no digit. -/
inductive Outcome (a : Alphabet) (position : Nat) (open? : Option Partial) (cs : List Char) :
    Except Fault (List Int32) → Prop
  | accepted {slots : List Int32} : (∀ c ∈ cs, c ∈ a.digits) → a.closes open? cs →
      Outcome a position open? cs (.ok slots)
  | unfinished : (∀ c ∈ cs, c ∈ a.digits) → ¬a.closes open? cs →
      Outcome a position open? cs (.error (.stream (position + cs.length) .unfinishedNumber))
  | unknown (known rest : List Char) {c : Char} : cs = known ++ c :: rest →
      (∀ d ∈ known, d ∈ a.digits) → c ∉ a.digits →
      Outcome a position open? cs (.error (.stream (position + known.length) (.unknownDigit c)))

theorem Outcome.map {position : Nat} {open? : Option Partial} {cs : List Char}
    {result : Except Fault (List Int32)} (h : Outcome a position open? cs result)
    (f : List Int32 → List Int32) : Outcome a position open? cs (result.map f) := by
  cases h with
  | accepted hdigits hcloses => exact .accepted hdigits hcloses
  | unfinished hdigits hcloses => exact .unfinished hdigits hcloses
  | unknown known rest heq hknown hc => exact .unknown known rest heq hknown hc

/-- A digit in front does not change how reading ends. -/
theorem Outcome.cons {c : Char} {i : Nat} (h : a.index? c = some i) {position : Nat}
    {open? : Option Partial} (number : Partial) {rest : List Char}
    {result : Except Fault (List Int32)}
    (hrest : Outcome a (position + 1) (if i < a.base then none else some number) rest result) :
    Outcome a position open? (c :: rest) result := by
  have hmem := mem_of_index? h
  have place : ∀ k, position + 1 + k = position + (k + 1) := fun k => by omega
  cases hrest with
  | accepted hdigits hcloses =>
      exact .accepted (List.forall_mem_cons.mpr ⟨hmem, hdigits⟩)
        (closes_cons h open? number rest ▸ hcloses)
  | unfinished hdigits hcloses =>
      rw [place]
      exact .unfinished (List.forall_mem_cons.mpr ⟨hmem, hdigits⟩)
        (closes_cons h open? number rest ▸ hcloses)
  | unknown known rest heq hknown hd =>
      rw [place]
      exact .unknown (c :: known) rest (by rw [heq, List.cons_append])
        (List.forall_mem_cons.mpr ⟨hmem, hknown⟩) hd

/-- **How reading ends.** Induction on the characters. -/
theorem decodeFrom_outcome (a : Alphabet) (position : Nat) (open? : Option Partial)
    (cs : List Char) : Outcome a position open? cs (a.decodeFrom position open? cs) := by
  induction cs generalizing position open? with
  | nil =>
      cases open? with
      | none => exact .accepted (by simp) rfl
      | some number => exact .unfinished (by simp) nofun
  | cons c rest ih =>
      rw [decodeFrom]
      cases h : a.index? c with
      | none => exact .unknown [] rest rfl (by simp) (index?_eq_none_iff.mp h)
      | some i =>
          simp only
          split
          · rename_i hi
            exact (Outcome.cons h {} (by rw [if_pos hi]; exact ih _ _)).map _
          · rename_i hi
            exact Outcome.cons h _ (by rw [if_neg hi]; exact ih _ _)

/-! ### The language of an alphabet -/

theorem closes_none_iff {cs : List Char} :
    a.closes none cs = true ↔ ∀ c, cs.getLast? = some c → a.isFinal c = true := by
  rw [closes]
  cases cs.getLast? <;> simp

/-- A stream that is accepted has digits only and leaves no number open. -/
theorem digits_of_decode {text : String} {slots : List Int32} (h : a.decode text = .ok slots) :
    (∀ c ∈ text.toList, c ∈ a.digits) ∧
      ∀ c, text.toList.getLast? = some c → a.isFinal c = true := by
  have houtcome := a.decodeFrom_outcome 0 none text.toList
  rw [decode] at h
  rw [h] at houtcome
  cases houtcome with
  | accepted hdigits hcloses => exact ⟨hdigits, closes_none_iff.mp hcloses⟩

/-- A stream that is accepted is a sequence of numerals, and its slots are theirs, however it is
split into numerals. -/
theorem exists_numerals_of_decode {text : String} {slots : List Int32}
    (h : a.decode text = .ok slots) :
    (∃ numerals : List a.Numeral, numerals.flatMap Numeral.spelling = text.toList) ∧
      ∀ numerals : List a.Numeral, numerals.flatMap Numeral.spelling = text.toList →
        slots = numerals.map Numeral.slot := by
  obtain ⟨hdigits, hlast⟩ := digits_of_decode h
  refine ⟨exists_numerals hdigits hlast, fun numerals hspelled => ?_⟩
  rw [decode_spellings hspelled] at h
  exact (Except.ok.inj h).symm

/-- A numeral has one digit that ends it. -/
theorem Numeral.countP_isFinal_spelling (n : a.Numeral) : n.spelling.countP a.isFinal = 1 := by
  induction n using Numeral.induction with
  | single last hlast =>
      simp [isFinal_of_index? (index?_digit_of_lt_base hlast), hlast]
  | cons i hi n ih =>
      simp [ih, isFinal_of_index? (index?_digit hi.2), hi.1]

theorem countP_isFinal_spellings (numerals : List a.Numeral) :
    (numerals.flatMap Numeral.spelling).countP a.isFinal = numerals.length := by
  induction numerals with
  | nil => rfl
  | cons n numerals ih =>
      rw [List.flatMap_cons, List.countP_append, n.countP_isFinal_spelling, ih, List.length_cons,
        Nat.add_comm]

/-- **Which streams are accepted, and what they stand for.** A stream is accepted just if all
its characters are digits and it is empty or ends with a digit that ends a number. It is then a
sequence of numerals, with one slot for each digit that ends a number, and however it is split
into numerals, the bits of the slots are the low bits of their exact values. A stream that is
refused is at fault at its first character that is no digit, or else at its end. -/
theorem streams_are_numeral_sequences (a : Alphabet) (text : String) :
    ((∃ slots, a.decode text = .ok slots) ↔
      (∀ c ∈ text.toList, c ∈ a.digits) ∧
        ∀ c, text.toList.getLast? = some c → a.isFinal c = true) ∧
    (∀ slots, a.decode text = .ok slots →
      slots.length = text.toList.countP a.isFinal ∧
      (∃ numerals : List a.Numeral, numerals.flatMap Numeral.spelling = text.toList) ∧
      ∀ numerals : List a.Numeral, numerals.flatMap Numeral.spelling = text.toList →
        List.Forall₂ (fun n v => v.toUInt32.toNat = n.value % 2 ^ 32) numerals slots) ∧
    ∀ fault, a.decode text = .error fault →
      (∃ known c rest, text.toList = known ++ c :: rest ∧ (∀ d ∈ known, d ∈ a.digits) ∧
        c ∉ a.digits ∧ fault = .stream known.length (.unknownDigit c)) ∨
      ((∀ c ∈ text.toList, c ∈ a.digits) ∧ fault = .stream text.length .unfinishedNumber) := by
  refine ⟨⟨fun ⟨slots, h⟩ => digits_of_decode h, fun ⟨hdigits, hlast⟩ => ?_⟩,
    fun slots h => ?_, fun fault h => ?_⟩
  · obtain ⟨numerals, hspelled⟩ := exists_numerals hdigits hlast
    exact ⟨_, decode_spellings hspelled⟩
  · obtain ⟨⟨numerals, hspelled⟩, hslots⟩ := exists_numerals_of_decode h
    refine ⟨?_, ⟨numerals, hspelled⟩, fun others hothers => ?_⟩
    · rw [hslots numerals hspelled, ← hspelled, countP_isFinal_spellings, List.length_map]
    · rw [hslots others hothers, List.forall₂_map_right_iff, List.forall₂_same]
      exact fun n _ => n.toNat_slot
  · have houtcome := a.decodeFrom_outcome 0 none text.toList
    rw [decode] at h
    rw [h] at houtcome
    cases houtcome with
    | unfinished hdigits _ =>
        refine .inr ⟨hdigits, ?_⟩
        rw [Nat.zero_add, String.length_toList]
    | unknown known rest heq hknown hc =>
        refine .inl ⟨known, _, rest, heq, hknown, hc, ?_⟩
        rw [Nat.zero_add]

end Alphabet

end TaggedBytecode
