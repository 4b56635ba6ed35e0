import TaggedBytecode.Program.Loading
import TaggedBytecode.Proofs.Container.Grammar
import TaggedBytecode.Proofs.Stream.RoundTrip
import TaggedBytecode.Proofs.Text.Utf8

/-!
# Loading Streams

A loader tells a stream from a container by the first four bytes, and from a dump by the first
character. The reference alphabet has no blank and no opening brace, so that a stream is never
taken for a dump. But it has the four letters that every container begins with, its **magic**,
and they are the beginning of a stream just if the first slot is `860`, spelled `TG`, and the
spelling of the second begins with `VB`. Such a stream is taken for a container, and refused as
one. Every other stream gives its program back.

## Main definitions

* `Alphabet.reference` — the alphabet of the reference configuration.
* `LoadedProgram.SpellsMagic` — the programs whose stream begins with the magic.

## Main results

* `Alphabet.spell_append_eq_cons_iff` — how the spelling of a number begins.
* `LoadedProgram.ofBytes_stream` — what is loaded from a text that does not begin with the magic.
* `Container.error_of_magic` — a text that begins with the magic is no container.
* `LoadedProgram.loads_stream_iff` — which programs are loaded from their streams.
-/

namespace TaggedBytecode

/-! ### The first digits of a number -/

namespace Alphabet

variable {a : Alphabet}

/-- How the spelling of a number begins: with the digit of the number if that ends it, and else
with a digit behind which the quotient by the radix is spelled. -/
theorem spell_append_eq_cons_iff {n i : Nat} {c : Char} {rest cs : List Char}
    (hc : a.index? c = some i) :
    a.spell n ++ rest = c :: cs ↔
      if i < a.base then n = i ∧ rest = cs
      else a.base ≤ n ∧ (n - a.base) % a.radix = i - a.base ∧
        a.spell ((n - a.base) / a.radix) ++ rest = cs := by
  have hdigit : ∀ j, j < a.length → (a.digit j = c ↔ j = i) := by
    intro j hj
    refine ⟨fun h => ?_, fun h => h ▸ digit_of_index? hc⟩
    rw [← h, index?_digit hj] at hc
    exact Option.some.inj hc
  have hlength := a.length_eq
  rw [spell]
  split
  · rename_i hn
    rw [List.singleton_append, List.cons.injEq, hdigit n (by omega)]
    split
    · rfl
    · rename_i hi
      constructor
      · rintro ⟨rfl, -⟩
        exact absurd hn hi
      · rintro ⟨hle, -⟩
        exact absurd hle (Nat.not_le_of_lt hn)
  · rename_i hn
    have hmod := Nat.mod_lt (n - a.base) a.radix_pos
    rw [List.cons_append, List.cons.injEq, hdigit _ (by omega)]
    split
    · rename_i hi
      constructor
      · rintro ⟨hsum, -⟩
        omega
      · rintro ⟨rfl, -⟩
        exact absurd hi hn
    · rename_i hi
      constructor
      · rintro ⟨hsum, hrest⟩
        exact ⟨by omega, by omega, hrest⟩
      · rintro ⟨-, hrem, hrest⟩
        exact ⟨by omega, hrest⟩

/-- The spelling of slots is read back. -/
theorem decode_ofList_spell (h : a.radix ≤ a.base) (slots : List Int32) :
    a.decode (String.ofList (slots.flatMap fun v => a.spell v.toUInt32.toNat)) = .ok slots := by
  obtain ⟨numerals, hslots, hspelled⟩ := exists_numerals_of_slots h slots
  have htext : numerals.flatMap Numeral.spelling =
      (String.ofList (slots.flatMap fun v => a.spell v.toUInt32.toNat)).toList := by
    rw [String.toList_ofList, hspelled]
  rw [decode_spellings htext, hslots]

/-- The alphabet of the reference configuration. -/
def reference : Alphabet where
  digits := referenceDigits.toList
  base := 43
  base_pos := by decide
  base_lt := by decide
  nodup := by decide

theorem alphabet_reference : ({} : Config).alphabet = .ok reference :=
  ofText_eq_ok_iff.mpr ⟨rfl, rfl⟩

end Alphabet

/-! ### Telling the forms apart -/

namespace Text

/-- A text without blanks at its ends stays as it is. -/
theorem trim_eq_self {s : String} (hfirst : ∀ c ∈ s.toList.head?, isBlank c = false)
    (hlast : ∀ c ∈ s.toList.getLast?, isBlank c = false) : trim s = s := by
  have hkept : ∀ cs : List Char, (∀ c ∈ cs.head?, isBlank c = false) →
      cs.dropWhile isBlank = cs := by
    intro cs hcs
    cases cs with
    | nil => rfl
    | cons c cs => exact List.dropWhile_cons_of_neg (by simp [hcs c rfl])
  rw [trim, trimChars, hkept _ hfirst, hkept _ (List.head?_reverse.symm ▸ hlast),
    List.reverse_reverse, String.ofList_toList]

end Text

/-- The magic of containers is a text. -/
theorem containerMagic_eq : containerMagic = Bytes.ofText "TGVB" := by
  rw [Bytes.ofText_eq_flatMap]
  rfl

namespace Container

/-- **A text that begins with the magic is no container.** Either it is too small to be one, or
its version is too new, as both bytes of that are characters and so neither is zero. -/
theorem error_of_magic {bytes : List UInt8} (hmagic : containerMagic <+: bytes)
    (hzero : 0 ∉ bytes) :
    decode bytes = .error ContainerError.tooSmall.failure ∨
      ∃ version, decode bytes = .error (ContainerError.unsupported version).failure := by
  have hheader : readHeader bytes = .error .tooSmall ∨
      ∃ version, readHeader bytes = .error (.unsupported version) := by
    rw [readHeader]
    split
    · exact .inl rfl
    · split
      · rename_i hother
        exact absurd (List.prefix_iff_eq_take.mp hmagic).symm hother
      · split
        · rename_i version _ _ _ hhalf _
          split
          · exact .inr ⟨version, rfl⟩
          · rename_i hversion
            have hhigh : version.toNat / 256 = 0 := by
              have := UInt16.le_iff_toNat_le.mp (UInt16.not_lt.mp hversion)
              have hcurrent : containerVersion.toNat = 1 := rfl
              omega
            have hmem : 0 ∈ bytes.drop 4 := by
              rw [Bytes.half?_eq_some_iff.mp hhalf, Bytes.ofHalf, hhigh]
              exact List.mem_append_left _ (List.mem_cons_of_mem _ List.mem_cons_self)
            exact absurd (List.mem_of_mem_drop hmem) hzero
        · exact .inl rfl
  rcases hheader with hsmall | ⟨version, hversion⟩
  · left
    rw [decode, hsmall]
    rfl
  · refine .inr ⟨version, ?_⟩
    rw [decode, hversion]
    rfl

end Container

namespace LoadedProgram

/-- Which bytes are taken for a container. -/
theorem take_eq_magic_iff {text : String} :
    (Bytes.ofText text).take 4 = containerMagic ↔ "TGVB".toList <+: text.toList := by
  rw [← Bytes.isPrefix_ofText_iff, ← containerMagic_eq, List.prefix_iff_eq_take]
  exact eq_comm

/-- A text without blanks that begins like no other form is read as a stream. -/
theorem ofBytes_stream {config : Config} {a : Alphabet} {stream : String} {slots : List Int32}
    (halphabet : config.alphabet = .ok a) (hdecode : a.decode stream = .ok slots)
    (hblank : ∀ c ∈ stream.toList, Text.isBlank c = false) (hbrace : '\x7b' ∉ stream.toList)
    (hmagic : ¬ "TGVB".toList <+: stream.toList) :
    ofBytes config (Bytes.ofText stream) = .ok { program := slots.toArray } := by
  have hhead : ¬ (stream.toList.head? == some '\x7b') = true :=
    fun h => hbrace (List.mem_of_mem_head? (beq_iff_eq.mp h))
  have htrim : Text.trim stream = stream := Text.trim_eq_self
    (fun c hc => hblank c (List.mem_of_mem_head? hc))
    (fun c hc => hblank c (List.mem_of_mem_getLast? hc))
  rw [ofBytes, if_neg (mt take_eq_magic_iff.mp hmagic), Bytes.text?_ofText]
  simp only [ofText, htrim, if_neg hhead, halphabet, hdecode, faulting, bind,
    Except.bind, pure, Except.pure, Except.mapError]

/-- A text that begins with the magic is refused as a container. -/
theorem ofBytes_of_magic (config : Config) {text : String}
    (hmagic : "TGVB".toList <+: text.toList) (hzero : 0 ∉ Bytes.ofText text) :
    ofBytes config (Bytes.ofText text) = .error ContainerError.tooSmall.failure ∨
      ∃ version, ofBytes config (Bytes.ofText text) =
        .error (ContainerError.unsupported version).failure := by
  have htake := take_eq_magic_iff.mpr hmagic
  rw [ofBytes, if_pos htake]
  rcases Container.error_of_magic (List.prefix_iff_eq_take.mpr htake.symm) hzero with
    hsmall | ⟨version, hversion⟩
  · left
    rw [hsmall]
    rfl
  · refine .inr ⟨version, ?_⟩
    rw [hversion]
    rfl

/-! ### Streams of the reference alphabet -/

/-- The programs whose stream begins with the magic of containers. -/
def SpellsMagic : List Int32 → Prop
  | first :: second :: _ =>
    first = 860 ∧ 1432 ≤ second.toUInt32.toNat ∧ second.toUInt32.toNat % 784 = 648
  | _ => False

/-- The number `860` alone is spelled `TG`. -/
theorem spell_append_eq_TG_iff {n : Nat} {rest cs : List Char} :
    Alphabet.reference.spell n ++ rest = 'T' :: 'G' :: cs ↔ n = 860 ∧ rest = cs := by
  have hT : Alphabet.reference.index? 'T' = some 48 := by decide
  have hG : Alphabet.reference.index? 'G' = some 29 := by decide
  have hbase : Alphabet.reference.base = 43 := rfl
  have hradix : Alphabet.reference.radix = 28 := by decide
  rw [Alphabet.spell_append_eq_cons_iff hT, Alphabet.spell_append_eq_cons_iff hG, hbase, hradix,
    if_neg (by decide), if_pos (by decide), ← and_assoc, ← and_assoc]
  exact and_congr_left fun _ => by omega

/-- The numbers whose spelling begins with `VB`. -/
theorem exists_spell_append_eq_VB_iff {n : Nat} {rest : List Char} :
    (∃ cs, Alphabet.reference.spell n ++ rest = 'V' :: 'B' :: cs) ↔ 1432 ≤ n ∧ n % 784 = 648 := by
  have hV : Alphabet.reference.index? 'V' = some 60 := by decide
  have hB : Alphabet.reference.index? 'B' = some 49 := by decide
  have hbase : Alphabet.reference.base = 43 := rfl
  have hradix : Alphabet.reference.radix = 28 := by decide
  simp only [Alphabet.spell_append_eq_cons_iff hV, Alphabet.spell_append_eq_cons_iff hB, hbase,
    hradix, Nat.reduceLT, if_false, exists_and_left, exists_eq', and_true]
  omega

/-- A program's stream begins with the magic just if its first two slots say so. -/
theorem magic_isPrefix_spellings_iff {slots : List Int32} :
    "TGVB".toList <+: slots.flatMap (fun v => Alphabet.reference.spell v.toUInt32.toNat) ↔
      SpellsMagic slots := by
  have hfirst : ∀ v : Int32, v.toUInt32.toNat = 860 ↔ v = 860 := by
    intro v
    refine ⟨fun h => ?_, fun h => h ▸ rfl⟩
    have hword : v.toUInt32 = 860 := UInt32.toNat_inj.mp h
    rw [← Int32.toInt32_toUInt32 v, hword]
    rfl
  have hbegins : ∀ cs : List Char, "TGVB".toList <+: cs ↔
      ∃ tail, cs = 'T' :: 'G' :: 'V' :: 'B' :: tail := fun cs => exists_congr fun _ => eq_comm
  rw [hbegins]
  cases slots with
  | nil => simp [SpellsMagic]
  | cons first slots =>
      simp only [List.flatMap_cons, spell_append_eq_TG_iff, hfirst, exists_and_left]
      cases slots with
      | nil => simp [SpellsMagic]
      | cons second slots =>
          rw [List.flatMap_cons, exists_spell_append_eq_VB_iff]
          rfl

/-- No digit of the reference alphabet is a blank, an opening brace or a byte of zero. -/
theorem reference_digits :
    ∀ c ∈ Alphabet.reference.digits,
      Text.isBlank c = false ∧ c ≠ '\x7b' ∧ 0 ∉ String.utf8EncodeChar c := by
  have hall : Alphabet.reference.digits.all (fun c =>
      decide (Text.isBlank c = false ∧ c ≠ '\x7b' ∧ 0 ∉ String.utf8EncodeChar c)) = true := by
    decide +kernel
  intro c hc
  exact of_decide_eq_true (List.all_eq_true.mp hall c hc)

/-- **A program is loaded from its stream unless that begins with the magic of containers.**
Under the reference configuration every program has a stream. Loading the bytes of the stream
gives the program back, with no markers and no flags, just if the program does not spell the
magic. If it does, the stream is refused as a container. -/
theorem loads_stream_iff (slots : List Int32) :
    ∃ alphabet stream, ({} : Config).alphabet = .ok alphabet ∧
      alphabet.encode slots = .ok stream ∧
      (ofBytes {} (Bytes.ofText stream) = .ok { program := slots.toArray } ↔
        ¬SpellsMagic slots) ∧
      (SpellsMagic slots →
        ofBytes {} (Bytes.ofText stream) = .error ContainerError.tooSmall.failure ∨
          ∃ version, ofBytes {} (Bytes.ofText stream) =
            .error (ContainerError.unsupported version).failure) := by
  have hradix : Alphabet.reference.radix ≤ Alphabet.reference.base := by decide
  have hencode := Alphabet.encode_eq_ok hradix slots
  have hdecode := Alphabet.decode_ofList_spell hradix slots
  have hmagic : "TGVB".toList <+:
      (String.ofList (slots.flatMap fun v => Alphabet.reference.spell v.toUInt32.toNat)).toList ↔
        SpellsMagic slots :=
    (congrArg _ String.toList_ofList).to_iff.trans magic_isPrefix_spellings_iff
  generalize String.ofList (slots.flatMap _) = stream at hencode hdecode hmagic
  obtain ⟨hdigits, -⟩ := Alphabet.digits_of_decode hdecode
  have hzero : 0 ∉ Bytes.ofText stream := by
    rw [Bytes.ofText_eq_flatMap, List.mem_flatMap]
    rintro ⟨c, hc, hbyte⟩
    exact (reference_digits c (hdigits c hc)).2.2 hbyte
  have hrefused := fun hspells => ofBytes_of_magic {} (hmagic.mpr hspells) hzero
  refine ⟨_, stream, Alphabet.alphabet_reference, hencode, ⟨fun hloaded hspells => ?_, fun h => ?_⟩,
    hrefused⟩
  · rcases hrefused hspells with hsmall | ⟨version, hversion⟩
    · rw [hsmall] at hloaded
      cases hloaded
    · rw [hversion] at hloaded
      cases hloaded
  · exact ofBytes_stream Alphabet.alphabet_reference hdecode
      (fun c hc => (reference_digits c (hdigits c hc)).1)
      (fun hc => (reference_digits _ (hdigits _ hc)).2.1 rfl) (mt hmagic.mp h)

/-- The stream of two slots that is the magic and one more digit. -/
theorem not_loads_stream_magic :
    ({} : Config).alphabet = .ok Alphabet.reference ∧
      Alphabet.reference.encode [860, 1432] = .ok "TGVBO" ∧
      ofBytes {} (Bytes.ofText "TGVBO") = .error ContainerError.tooSmall.failure ∧
      ofBytes {} (Bytes.ofText "TGVBO") ≠ .ok { program := #[860, 1432] } := by
  have hencode : Alphabet.reference.encode [860, 1432] = .ok "TGVBO" := by cbv
  have hrefused : ofBytes {} (Bytes.ofText "TGVBO") = .error ContainerError.tooSmall.failure := by
    rw [Bytes.ofText_eq_flatMap]
    rfl
  refine ⟨Alphabet.alphabet_reference, hencode, hrefused, fun hloaded => ?_⟩
  rw [hrefused] at hloaded
  cases hloaded

end LoadedProgram

end TaggedBytecode
