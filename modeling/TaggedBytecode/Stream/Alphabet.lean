import TaggedBytecode.Fault

/-!
# Alphabets and Encoded Streams

An **encoded stream** spells a program in the digits of an alphabet. A digit whose index is
below the alphabet's **base** ends a number; any other digit continues it. The continuation
digits count in the **radix**, the number of digits that are not below the base, and each adds
the base to what it stands for:

`value = Σ (index mod base + base) · radix ^ place + last · radix ^ count`.

A number is kept modulo `2 ^ 64` while it is read, and its low 32 bits are the slot.

## Main definitions

* `Alphabet` — distinct digits with a base that leaves at least one continuation digit.
* `Alphabet.decode` — the slots of a stream.
* `Alphabet.encode` — the stream of some slots, where the radix does not exceed the base.
-/

namespace TaggedBytecode

/-- The digits of a stream. -/
structure Alphabet where
  digits : List Char
  /-- Number of digits that end a number. -/
  base : Nat
  base_pos : 0 < base
  base_lt : base < digits.length
  nodup : digits.Nodup

namespace Alphabet

/-- The first place that repeats an earlier digit, with the digit; `seen` holds the digits
before `position`. -/
def duplicate? (seen : List Char) (position : Nat) : List Char → Option (Nat × Char)
  | [] => none
  | c :: rest =>
    if c ∈ seen then some (position, c) else duplicate? (c :: seen) (position + 1) rest

theorem nodup_of_duplicate?_eq_none {seen : List Char} {position : Nat} {cs : List Char}
    (h : duplicate? seen position cs = none) : cs.Nodup ∧ ∀ c ∈ cs, c ∉ seen := by
  induction cs generalizing seen position with
  | nil => simp
  | cons c rest ih =>
    unfold duplicate? at h
    split at h
    · simp at h
    · rename_i hc
      obtain ⟨hrest, hseen⟩ := ih h
      refine ⟨List.nodup_cons.2 ⟨fun hmem => hseen c hmem (by simp), hrest⟩, ?_⟩
      intro d hd
      rcases List.mem_cons.1 hd with rfl | hd
      · exact hc
      · exact fun hmem => hseen d hd (List.mem_cons_of_mem _ hmem)

/-- The alphabet of a text and a base. -/
def ofText (text : String) (base : Nat) : Except Fault Alphabet :=
  if hbase : 0 < base ∧ base < text.toList.length then
    match hdup : duplicate? [] 0 text.toList with
    | some (position, c) => .error (.stream position (.duplicateDigit c))
    | none =>
      .ok
        { digits := text.toList
          base := base
          base_pos := hbase.1
          base_lt := hbase.2
          nodup := (nodup_of_duplicate?_eq_none hdup).1 }
  else .error (.stream 0 (.baseOutOfRange base text.toList.length))

def length (a : Alphabet) : Nat := a.digits.length

/-- Number of digits that continue a number. -/
def radix (a : Alphabet) : Nat := a.length - a.base

theorem radix_pos (a : Alphabet) : 0 < a.radix :=
  Nat.sub_pos_of_lt a.base_lt

/-- The index of a digit. -/
def index? (a : Alphabet) (c : Char) : Option Nat :=
  a.digits.findIdx? (· == c)

/-! ### Decoding -/

/-- A number that is being read: what its digits so far stand for, and the worth of the next
place. -/
structure Partial where
  value : UInt64 := 0
  worth : UInt64 := 1

/-- Reads the digits from `position` on. `open?` is the number that the digits before it left
unfinished, if any. -/
def decodeFrom (a : Alphabet) (position : Nat) (open? : Option Partial) :
    List Char → Except Fault (List Int32)
  | [] =>
    match open? with
    | none => .ok []
    | some _ => .error (.stream position .unfinishedNumber)
  | c :: rest =>
    match a.index? c with
    | none => .error (.stream position (.unknownDigit c))
    | some i =>
      let number := open?.getD {}
      let value := number.value + number.worth * UInt64.ofNat (i % a.base)
      if i < a.base then
        (decodeFrom a (position + 1) none rest).map (value.toUInt32.toInt32 :: ·)
      else
        let value := value + UInt64.ofNat a.base * number.worth
        decodeFrom a (position + 1) (some ⟨value, number.worth * UInt64.ofNat a.radix⟩) rest

/-- The slots that a stream spells. -/
def decode (a : Alphabet) (text : String) : Except Fault (List Int32) :=
  a.decodeFrom 0 none text.toList

/-! ### Encoding -/

/-- The digit of an index below the length. -/
def digit (a : Alphabet) (i : Nat) : Char := a.digits[i]?.getD ' '

/-- The digits of a number: as long as it is not below the base, the base is taken off and the
rest is divided by the radix. -/
def spell (a : Alphabet) (n : Nat) : List Char :=
  if n < a.base then [a.digit n]
  else a.digit (a.base + (n - a.base) % a.radix) :: a.spell ((n - a.base) / a.radix)
termination_by n
decreasing_by
  have := a.base_pos
  exact Nat.lt_of_le_of_lt (Nat.div_le_self _ _) (by omega)

/-- The stream of some slots, each spelled by its unsigned 32-bit pattern. -/
def encode (a : Alphabet) (slots : List Int32) : Except Fault String :=
  if a.base < a.radix then .error (.stream 0 (.radixAboveBase a.radix a.base))
  else .ok (String.ofList (slots.flatMap fun v => a.spell v.toUInt32.toNat))

end Alphabet

end TaggedBytecode
