/-!
# Bytes

Numbers are written little-endian in two or four bytes, and read from the front of some bytes
together with the bytes that are left.

## Main definitions

* `Bytes.ofHalf`, `Bytes.ofWord` — the bytes of a number.
* `Bytes.half?`, `Bytes.word?` — read a number.
* `Bytes.ofText`, `Bytes.text?`, `Bytes.chars` — UTF-8.

## Main results

* `Bytes.half?_eq_some_iff`, `Bytes.word?_eq_some_iff` — which bytes a number is read from.
* `Bytes.words_flatMap_ofWord` — reading all the numbers that were written.
-/

namespace TaggedBytecode.Bytes

/-! ### Numbers -/

/-- The lowest byte of a number. -/
def lowByte (n : Nat) : UInt8 := UInt8.ofNat (n % 256)

/-- The two bytes of a number. -/
def ofHalf (n : UInt16) : List UInt8 :=
  [lowByte n.toNat, lowByte (n.toNat / 256)]

/-- The four bytes of a number. -/
def ofWord (n : UInt32) : List UInt8 :=
  [lowByte n.toNat, lowByte (n.toNat / 256), lowByte (n.toNat / 0x10000),
    lowByte (n.toNat / 0x1000000)]

/-- The number that bytes spell in base 256, the lowest digit first. -/
def value : List UInt8 → Nat
  | [] => 0
  | b :: rest => b.toNat + 256 * value rest

/-- The number of two bytes. -/
def joinHalf (a b : UInt8) : UInt16 := UInt16.ofNat (value [a, b])

/-- The number of four bytes. -/
def joinWord (a b c d : UInt8) : UInt32 := UInt32.ofNat (value [a, b, c, d])

/-- Reads a number of two bytes. -/
def half? : List UInt8 → Option (UInt16 × List UInt8)
  | a :: b :: rest => some (joinHalf a b, rest)
  | _ => none

/-- Reads a number of four bytes. -/
def word? : List UInt8 → Option (UInt32 × List UInt8)
  | a :: b :: c :: d :: rest => some (joinWord a b c d, rest)
  | _ => none

/-- The numbers of as many groups of four bytes as there are. -/
def words : List UInt8 → List UInt32
  | a :: b :: c :: d :: rest => joinWord a b c d :: words rest
  | _ => []

@[simp] theorem toNat_lowByte (n : Nat) : (lowByte n).toNat = n % 256 := by
  simp [lowByte, UInt8.toNat_ofNat']

@[simp] theorem length_ofHalf (n : UInt16) : (ofHalf n).length = 2 := rfl

@[simp] theorem length_ofWord (n : UInt32) : (ofWord n).length = 4 := rfl

theorem ofHalf_joinHalf (a b : UInt8) : ofHalf (joinHalf a b) = [a, b] := by
  have ha := a.toNat_lt
  have hb := b.toNat_lt
  simp only [ofHalf, joinHalf, value, List.cons.injEq, ← UInt8.toNat_inj, toNat_lowByte,
    UInt16.toNat_ofNat', and_true]
  omega

theorem ofWord_joinWord (a b c d : UInt8) : ofWord (joinWord a b c d) = [a, b, c, d] := by
  have ha := a.toNat_lt
  have hb := b.toNat_lt
  have hc := c.toNat_lt
  have hd := d.toNat_lt
  simp only [ofWord, joinWord, value, List.cons.injEq, ← UInt8.toNat_inj, toNat_lowByte,
    UInt32.toNat_ofNat', and_true]
  omega

theorem half?_ofHalf_append (n : UInt16) (rest : List UInt8) :
    half? (ofHalf n ++ rest) = some (n, rest) := by
  have hn := n.toNat_lt
  have h : joinHalf (lowByte n.toNat) (lowByte (n.toNat / 256)) = n := by
    apply UInt16.toNat_inj.mp
    simp only [joinHalf, value, toNat_lowByte, UInt16.toNat_ofNat']
    omega
  simp only [ofHalf, List.cons_append, List.nil_append, half?, h]

theorem word?_ofWord_append (n : UInt32) (rest : List UInt8) :
    word? (ofWord n ++ rest) = some (n, rest) := by
  have hn := n.toNat_lt
  have h : joinWord (lowByte n.toNat) (lowByte (n.toNat / 256)) (lowByte (n.toNat / 0x10000))
      (lowByte (n.toNat / 0x1000000)) = n := by
    apply UInt32.toNat_inj.mp
    simp only [joinWord, value, toNat_lowByte, UInt32.toNat_ofNat']
    omega
  simp only [ofWord, List.cons_append, List.nil_append, word?, h]

/-- A number is read from the front of some bytes if and only if they start with its own. -/
theorem half?_eq_some_iff {bytes rest : List UInt8} {n : UInt16} :
    half? bytes = some (n, rest) ↔ bytes = ofHalf n ++ rest := by
  constructor
  · intro h
    match bytes, h with
    | a :: b :: _, h =>
        simp only [half?, Option.some.injEq, Prod.mk.injEq] at h
        obtain ⟨rfl, rfl⟩ := h
        rw [ofHalf_joinHalf]
        rfl
  · rintro rfl
    exact half?_ofHalf_append n rest

/-- A number is read from the front of some bytes if and only if they start with its own. -/
theorem word?_eq_some_iff {bytes rest : List UInt8} {n : UInt32} :
    word? bytes = some (n, rest) ↔ bytes = ofWord n ++ rest := by
  constructor
  · intro h
    match bytes, h with
    | a :: b :: c :: d :: _, h =>
        simp only [word?, Option.some.injEq, Prod.mk.injEq] at h
        obtain ⟨rfl, rfl⟩ := h
        rw [ofWord_joinWord]
        rfl
  · rintro rfl
    exact word?_ofWord_append n rest

theorem words_flatMap_ofWord (ns : List UInt32) : words (ns.flatMap ofWord) = ns := by
  induction ns with
  | nil => rfl
  | cons n ns ih =>
      have h := word?_ofWord_append n (ns.flatMap ofWord)
      simp only [ofWord, List.cons_append, List.nil_append, word?, Option.some.injEq,
        Prod.mk.injEq, and_true] at h
      simp only [List.flatMap_cons, ofWord, List.cons_append, List.nil_append, words, h, ih]

/-! ### Texts -/

/-- The bytes of a text in UTF-8. -/
def ofText (s : String) : List UInt8 := s.toUTF8.toList

/-- The text that bytes are in UTF-8. -/
def text? (bytes : List UInt8) : Option String :=
  String.fromUTF8? ⟨bytes.toArray⟩

/-- The characters of bytes in UTF-8, with `stray` for a byte that belongs to none. Every
character takes at least one byte. -/
def charsFrom (stray : List Char) : (fuel : Nat) → List UInt8 → List Char
  | 0, _ | _, [] => []
  | fuel + 1, b :: rest =>
    match ByteArray.utf8DecodeChar? ⟨((b :: rest).take 4).toArray⟩ 0 with
    | some c => c :: charsFrom stray fuel ((b :: rest).drop c.utf8Size)
    | none => stray ++ charsFrom stray fuel rest

/-- The characters of bytes in UTF-8, with `stray` for a byte that belongs to none. -/
def chars (stray : List Char) (bytes : List UInt8) : List Char :=
  charsFrom stray bytes.length bytes

/-- The bytes of a text that consists of ASCII characters. -/
def ofAscii (s : String) : List UInt8 := s.toList.map fun c => c.toNat.toUInt8

end TaggedBytecode.Bytes
