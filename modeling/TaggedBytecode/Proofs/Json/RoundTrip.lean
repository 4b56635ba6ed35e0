import Mathlib
import TaggedBytecode.Json.Reader
import TaggedBytecode.Json.Writer

/-!
# Reading Back What Was Written as JSON

A tree is read back from its compact and from its indented text. Strings are written with escapes
and read back in **pieces**, one for every character; a number is read back if its lexeme is one
that the reader takes to the end. Behind a tree any text may follow that does not go on with a
number, so that trees are read back inside others. The two texts of an array or an object differ
in their **gaps** only, the blanks in front of items, members and closing brackets, and the reader
skips those.

## Main definitions

* `Json.EndsNumber` — the texts that can follow a number.
* `Json.IsLexeme` — the lexemes that are read to their ends.
* `Json.Writable` — the trees that can be read back.
* `Json.ReadsAs` — the texts that a tree is read from.
* `Json.Joins` — texts with commas between them.

## Main results

* `Json.stringBody_escaped` — strings are read back.
* `Json.isLexeme_integer` — the lexemes of integers are read to their ends.
* `Json.readsAs_array`, `Json.readsAs_object` — arrays and objects with any gaps in them.
* `Json.Writable.ofText?_compact`, `Json.Writable.ofText?_indented` — a tree is read back from its
  texts.
-/

namespace TaggedBytecode.Json

/-! ### Strings -/

/-- The written forms of characters: an escape of one letter, an escape of a control character
by its number, or the character itself. -/
theorem escapeChar_cases (c : Char) :
    (∃ e, e ≠ 'u' ∧ simpleEscape? e = some c ∧ escapeChar c = ['\\', e]) ∨
    (c.toNat < 0x20 ∧ escapeChar c =
      ['\\', 'u', '0', '0', hexDigit (c.toNat / 16), hexDigit (c.toNat % 16)]) ∨
    (c ≠ '"' ∧ c ≠ '\\' ∧ ¬c.toNat < 0x20 ∧ escapeChar c = [c]) := by
  rw [escapeChar]
  split_ifs with hquote hback hb hf hn hr ht hcontrol
  · exact .inl ⟨'"', by decide, by rw [hquote]; rfl, rfl⟩
  · exact .inl ⟨'\\', by decide, by rw [hback]; rfl, rfl⟩
  · exact .inl ⟨'b', by decide, hb ▸ rfl, rfl⟩
  · exact .inl ⟨'f', by decide, hf ▸ rfl, rfl⟩
  · exact .inl ⟨'n', by decide, hn ▸ rfl, rfl⟩
  · exact .inl ⟨'r', by decide, hr ▸ rfl, rfl⟩
  · exact .inl ⟨'t', by decide, ht ▸ rfl, rfl⟩
  · exact .inr (.inl ⟨hcontrol, rfl⟩)
  · exact .inr (.inr ⟨hquote, hback, hcontrol, rfl⟩)

theorem hexUnit?_hexDigit {n : Nat} (h : n < 0x20) :
    hexUnit? '0' '0' (hexDigit (n / 16)) (hexDigit (n % 16)) = some (UInt16.ofNat n) := by
  revert n
  decide

/-- The unit of a control character is assembled to the character, whatever comes next. -/
theorem assemble_control {c : Char} (h : c.toNat < 0x20) (ps : List Piece) :
    assemble (.unit (UInt16.ofNat c.toNat) :: ps) = (assemble ps).map (c :: ·) := by
  have hunit : (UInt16.ofNat c.toNat).toNat = c.toNat :=
    UInt16.toNat_ofNat_of_lt (Nat.lt_trans h (by decide))
  have hhigh : Text.isHighSurrogate (UInt16.ofNat c.toNat) = false := by
    rw [Text.isHighSurrogate, hunit, decide_eq_false (by omega), Bool.false_and]
  have hlow : Text.isLowSurrogate (UInt16.ofNat c.toNat) = false := by
    rw [Text.isLowSurrogate, hunit, decide_eq_false (by omega), Bool.false_and]
  have hchar : Text.ofUnit (UInt16.ofNat c.toNat) = c := by
    rw [Text.ofUnit, hhigh, hlow, hunit]
    exact Char.ofNat_toNat c
  match ps with
  | [] => simp [assemble, hhigh, hlow, hchar]
  | .char d :: ps => simp [assemble, hhigh, hlow, hchar, Function.comp_def]
  | .unit v :: ps => simp [assemble, hhigh, hlow, hchar]

/-- A character is read back from its written form, as one piece. -/
theorem exists_pieces_escapeChar (c : Char) (rest : List Char) :
    ∃ p, (∀ ps, assemble (p :: ps) = (assemble ps).map (c :: ·)) ∧
      pieces (escapeChar c ++ rest) = (pieces rest).map fun (ps, rest) => (p :: ps, rest) := by
  have plain : ∀ ps, assemble (.char c :: ps) = (assemble ps).map (c :: ·) := fun ps => by
    rw [assemble]
  rcases escapeChar_cases c with ⟨e, he, hsimple, hwritten⟩ | ⟨hcontrol, hwritten⟩ |
    ⟨hquote, hback, hcontrol, hwritten⟩
  · exact ⟨.char c, plain, by simp [hwritten, pieces, he, hsimple]⟩
  · exact ⟨.unit (UInt16.ofNat c.toNat), assemble_control hcontrol,
      by simp [hwritten, pieces, hexUnit?_hexDigit hcontrol]⟩
  · exact ⟨.char c, plain, by simp [hwritten, pieces, hback, hcontrol]⟩

/-- **Strings are read back.** Induction on the characters. -/
theorem stringBody_escaped (s : String) (rest : List Char) :
    stringBody (s.toList.flatMap escapeChar ++ '"' :: rest) = some (some s, rest) := by
  have hread : ∀ cs : List Char, ∃ ps, assemble ps = some cs ∧
      pieces (cs.flatMap escapeChar ++ '"' :: rest) = some (ps, rest) := by
    intro cs
    induction cs with
    | nil => exact ⟨[], rfl, rfl⟩
    | cons c cs ih =>
        obtain ⟨ps, hcs, hps⟩ := ih
        obtain ⟨p, hp, hpieces⟩ :=
          exists_pieces_escapeChar c (cs.flatMap escapeChar ++ '"' :: rest)
        refine ⟨p :: ps, ?_, ?_⟩
        · rw [hp, hcs]
          rfl
        · rw [List.flatMap_cons, List.append_assoc, hpieces, hps]
          rfl
  obtain ⟨ps, hcs, hps⟩ := hread s.toList
  simp only [stringBody, hps, hcs, Option.map_some, String.ofList_toList]

/-! ### Numbers -/

/-- The texts that can follow a number: they do not go on with it. -/
def EndsNumber (rest : List Char) : Prop :=
  ∀ c tail, rest = c :: tail → c.isDigit = false ∧ c ≠ '.' ∧ c ≠ 'e' ∧ c ≠ 'E'

theorem endsNumber_nil : EndsNumber [] := nofun

theorem endsNumber_cons {c : Char} (h : (c.isDigit || c == '.' || c == 'e' || c == 'E') = false)
    (rest : List Char) : EndsNumber (c :: rest) := by
  rintro _ _ ⟨⟩
  simpa [and_assoc] using h

/-- The lexemes that are read to their ends, and start like numbers. -/
structure IsLexeme (lexeme : List Char) : Prop where
  head : ∃ c tail, lexeme = c :: tail ∧ (c = '-' ∨ c.isDigit = true)
  read : ∀ rest, EndsNumber rest → numberLexeme (lexeme ++ rest) = some (lexeme, rest)

theorem spanDigits_append {ds rest : List Char} (hds : ∀ c ∈ ds, c.isDigit = true)
    (hrest : EndsNumber rest) : spanDigits (ds ++ rest) = (ds, rest) := by
  have htail : rest.takeWhile Char.isDigit = [] ∧ rest.dropWhile Char.isDigit = rest := by
    cases rest with
    | nil => exact ⟨rfl, rfl⟩
    | cons c tail =>
        have hc := (hrest c tail rfl).1
        simp [hc]
  rw [spanDigits, List.takeWhile_append_of_pos hds, List.dropWhile_append_of_pos hds, htail.1,
    htail.2, List.append_nil]

/-- Decimal digits start with a zero only if there is nothing else. -/
theorem eq_nil_of_toDigits {n : Nat} {tail : List Char} (h : Nat.toDigits 10 n = '0' :: tail) :
    tail = [] := by
  suffices hzero : n = 0 by
    subst hzero
    exact (List.cons.inj h).2.symm
  induction n using Nat.strongRecOn generalizing tail with
  | _ n ih =>
      rcases Nat.lt_or_ge n 10 with hlt | hge
      · rw [Nat.toDigits_of_lt_base hlt] at h
        have hdigit : ∀ m < 10, Nat.digitChar m = '0' → m = 0 := by decide
        exact hdigit n hlt (List.cons.inj h).1
      · rw [Nat.toDigits_of_base_le (by decide) hge] at h
        have hquotient : 0 < n / 10 := Nat.div_pos hge (by decide)
        cases hhead : Nat.toDigits 10 (n / 10) with
        | nil => exact absurd hhead Nat.toDigits_ne_nil
        | cons c front =>
            rw [hhead] at h
            obtain rfl : c = '0' := (List.cons.inj h).1
            exact absurd (ih _ (Nat.div_lt_self (by omega) (by decide)) hhead) (by omega)

theorem isDigit_of_mem_toDigits (n : Nat) : ∀ c ∈ Nat.toDigits 10 n, c.isDigit = true :=
  fun _ hc => Nat.isDigit_of_mem_toDigits (by decide) (by decide) hc

/-- The digits of a natural number are a whole part. -/
theorem wholePart_toDigits (n : Nat) {rest : List Char} (hrest : EndsNumber rest) :
    wholePart (Nat.toDigits 10 n ++ rest) = some (Nat.toDigits 10 n, rest) := by
  rw [wholePart, spanDigits_append (isDigit_of_mem_toDigits n) hrest]
  split
  · rename_i heq
    obtain ⟨hds, rfl⟩ := Prod.mk.inj heq
    rw [hds]
  · rename_i hzero heq
    obtain ⟨hds, -⟩ := Prod.mk.inj heq
    obtain rfl := eq_nil_of_toDigits hds
    exact (hzero rfl).elim
  · rename_i heq
    exact absurd (Prod.mk.inj heq).1 Nat.toDigits_ne_nil
  · rename_i heq
    obtain ⟨rfl, rfl⟩ := Prod.mk.inj heq
    rfl

/-- A number without a fraction or an exponent ends with its digits. -/
theorem parts_of_endsNumber {rest : List Char} (hrest : EndsNumber rest) :
    fractionPart rest = some ([], rest) ∧ exponentPart rest = some ([], rest) := by
  cases rest with
  | nil => exact ⟨rfl, rfl⟩
  | cons c tail =>
      obtain ⟨-, hdot, he, hE⟩ := hrest c tail rfl
      constructor
      · simp [fractionPart, hdot]
      · simp [exponentPart, he, hE]

theorem isLexeme_toDigits (n : Nat) : IsLexeme (Nat.toDigits 10 n) := by
  cases hdigits : Nat.toDigits 10 n with
  | nil => exact absurd hdigits Nat.toDigits_ne_nil
  | cons c tail =>
      have hc : c.isDigit = true := isDigit_of_mem_toDigits n c (hdigits ▸ List.mem_cons_self)
      refine ⟨⟨c, tail, rfl, .inr hc⟩, fun rest hrest => ?_⟩
      have hsign : c ≠ '-' := by
        rintro rfl
        exact absurd hc (by decide)
      have hwhole := wholePart_toDigits n hrest
      obtain ⟨hfraction, hexponent⟩ := parts_of_endsNumber hrest
      rw [hdigits, List.cons_append] at hwhole
      rw [List.cons_append, numberLexeme]
      · simp [hwhole, hfraction, hexponent]
      · rintro _ ⟨⟩
        exact hsign rfl

theorem isLexeme_minus (n : Nat) : IsLexeme ('-' :: Nat.toDigits 10 n) := by
  refine ⟨⟨'-', _, rfl, .inl rfl⟩, fun rest hrest => ?_⟩
  obtain ⟨hfraction, hexponent⟩ := parts_of_endsNumber hrest
  rw [List.cons_append, numberLexeme]
  simp [wholePart_toDigits n hrest, hfraction, hexponent]

/-- The digits of an integer behind its sign. -/
theorem toList_toString (n : Int) :
    (toString n).toList =
      if n < 0 then '-' :: Nat.toDigits 10 n.natAbs else Nat.toDigits 10 n.natAbs := by
  cases n with
  | ofNat n =>
      rw [Int.ofNat_eq_natCast, if_neg (Int.not_lt.mpr (Int.natCast_nonneg n))]
      exact Nat.toList_repr
  | negSucc n =>
      rw [if_pos (Int.negSucc_lt_zero n)]
      change ("-" ++ (n + 1).repr).toList = _
      rw [String.toList_append, Nat.toList_repr]
      rfl

/-- **Integers are read to their ends.** -/
theorem isLexeme_integer (n : Int) : IsLexeme (toString n).toList := by
  rw [toList_toString]
  split
  · exact isLexeme_minus _
  · exact isLexeme_toDigits _

/-! ### Trees -/

/-- The trees that can be read back: their numbers are lexemes, and nothing in them is
unreadable. -/
inductive Writable : Json → Prop
  | null : Writable .null
  | bool (b : Bool) : Writable (.bool b)
  | number {lexeme : String} : IsLexeme lexeme.toList → Writable (.number lexeme)
  | string (s : String) : Writable (.string s)
  | array {items : List Json} : (∀ v ∈ items, Writable v) → Writable (.array items)
  | object {members : List (String × Json)} : (∀ m ∈ members, Writable m.2) →
      Writable (.object members)

/-- A tree is read from a text in front of any text that ends a number. -/
def ReadsAs (cs : List Char) (v : Json) : Prop :=
  ∀ fuel rest, 2 * cs.length ≤ fuel → EndsNumber rest → value fuel (cs ++ rest) = some (v, rest)

/-- The whole text of a tree is read. -/
theorem ReadsAs.ofText? {s : String} {v : Json} (h : ReadsAs s.toList v) :
    Json.ofText? s = some v := by
  have hvalue := h (2 * s.toList.length + 2) [] (by omega) endsNumber_nil
  rw [List.append_nil] at hvalue
  rw [Json.ofText?, hvalue]
  rfl

/-! ### Blanks -/

/-- Some blanks. -/
def IsGap (gap : List Char) : Prop := ∀ c ∈ gap, isBlank c = true

theorem isGap_nil : IsGap [] := nofun

theorem isGap_newline (depth : Nat) : IsGap (newline depth) :=
  List.forall_mem_cons.mpr ⟨rfl, fun _ hc => List.eq_of_mem_replicate hc ▸ rfl⟩

theorem skipBlanks_cons {c : Char} (h : isBlank c = false) (cs : List Char) :
    skipBlanks (c :: cs) = c :: cs :=
  List.dropWhile_cons_of_neg (by simp [h])

theorem skipBlanks_append {gap : List Char} (h : IsGap gap) (cs : List Char) :
    skipBlanks (gap ++ cs) = skipBlanks cs :=
  List.dropWhile_append_of_pos h

theorem skipBlanks_skipBlanks (cs : List Char) : skipBlanks (skipBlanks cs) = skipBlanks cs :=
  List.dropWhile_idempotent isBlank cs

/-- Blanks in front of a tree do not count. -/
theorem value_skipBlanks (fuel : Nat) (cs : List Char) :
    value fuel (skipBlanks cs) = value fuel cs := by
  cases fuel with
  | zero => rfl
  | succ fuel => rw [value, value, skipBlanks_skipBlanks]

theorem items_skipBlanks (fuel : Nat) (cs : List Char) :
    items fuel (skipBlanks cs) = items fuel cs := by
  cases fuel with
  | zero => rfl
  | succ fuel => rw [items, items, value_skipBlanks]

theorem members_skipBlanks (fuel : Nat) (cs : List Char) :
    members fuel (skipBlanks cs) = members fuel cs := by
  cases fuel with
  | zero => rfl
  | succ fuel => rw [members, members, skipBlanks_skipBlanks]

theorem ReadsAs.gap_append {gap cs : List Char} {v : Json} (h : ReadsAs cs v) (hgap : IsGap gap) :
    ReadsAs (gap ++ cs) v := by
  intro fuel rest hfuel hrest
  rw [List.length_append] at hfuel
  rw [← value_skipBlanks, List.append_assoc, skipBlanks_append hgap, value_skipBlanks]
  exact h fuel rest (by omega) hrest

theorem EndsNumber.gap_append {gap rest : List Char} (h : EndsNumber rest) (hgap : IsGap gap) :
    EndsNumber (gap ++ rest) := by
  cases gap with
  | nil => exact h
  | cons c gap =>
      refine endsNumber_cons ?_ _
      have hc : isBlank c = true := hgap c List.mem_cons_self
      simp only [isBlank, Bool.or_eq_true, beq_iff_eq] at hc
      rcases hc with ((rfl | rfl) | rfl) | rfl <;> rfl

/-! ### Simple trees -/

/-- Nothing but a minus sign or a digit starts a number. -/
theorem ne_of_number {c : Char} (h : c = '-' ∨ c.isDigit = true) (d : Char)
    (hd : (d == '-' || d.isDigit) = false) : c ≠ d := by
  rintro rfl
  rcases h with rfl | h
  · cases hd
  · rw [h, Bool.or_true] at hd
    cases hd

theorem not_isBlank_of_number {c : Char} (h : c = '-' ∨ c.isDigit = true) :
    isBlank c = false := by
  simp [isBlank, ne_of_number h]

/-- What starts like a number is read as one. -/
theorem value_of_number {c : Char} (h : c = '-' ∨ c.isDigit = true) (fuel : Nat)
    (cs : List Char) :
    value (fuel + 1) (c :: cs) =
      (numberLexeme (c :: cs)).map fun (lexeme, rest) =>
        (.number (String.ofList lexeme), rest) := by
  rw [value, skipBlanks_cons (not_isBlank_of_number h)]
  split
  · rename_i heq
    exact absurd (List.cons.inj heq).1 (ne_of_number h 'n' rfl)
  · rename_i heq
    exact absurd (List.cons.inj heq).1 (ne_of_number h 't' rfl)
  · rename_i heq
    exact absurd (List.cons.inj heq).1 (ne_of_number h 'f' rfl)
  · rename_i heq
    exact absurd (List.cons.inj heq).1 (ne_of_number h '"' rfl)
  · rename_i heq
    exact absurd (List.cons.inj heq).1 (ne_of_number h '[' rfl)
  · rename_i heq
    exact absurd (List.cons.inj heq).1 (ne_of_number h '\x7b' rfl)
  · rfl

theorem readsAs_null : ReadsAs "null".toList .null := by
  intro fuel rest hfuel _
  obtain ⟨fuel, rfl⟩ : ∃ less, fuel = less + 1 := ⟨fuel - 1, by simp at hfuel; omega⟩
  rfl

theorem readsAs_bool (b : Bool) : ReadsAs (Json.bool b).compactChars (.bool b) := by
  intro fuel rest hfuel _
  obtain ⟨fuel, rfl⟩ : ∃ less, fuel = less + 1 := ⟨fuel - 1, by
    cases b <;> simp [compactChars] at hfuel <;> omega⟩
  cases b <;> rfl

theorem readsAs_number {lexeme : String} (h : IsLexeme lexeme.toList) :
    ReadsAs lexeme.toList (.number lexeme) := by
  intro fuel rest hfuel hrest
  obtain ⟨⟨c, tail, hhead, hc⟩, hread⟩ := h
  have hnumber := hread rest hrest
  rw [hhead] at hfuel ⊢
  obtain ⟨fuel, rfl⟩ : ∃ less, fuel = less + 1 := ⟨fuel - 1, by
    rw [List.length_cons] at hfuel
    omega⟩
  rw [List.cons_append, value_of_number hc, ← List.cons_append, ← hhead, hnumber]
  simp only [Option.map_some, String.ofList_toList]

theorem readsAs_string (s : String) : ReadsAs (quote s) (.string s) := by
  intro fuel rest hfuel _
  obtain ⟨fuel, rfl⟩ : ∃ less, fuel = less + 1 := ⟨fuel - 1, by
    simp only [quote, List.length_cons, List.cons_append] at hfuel
    omega⟩
  have hbody := stringBody_escaped s rest
  simp only [quote, List.cons_append, List.append_assoc, List.nil_append, value,
    skipBlanks_cons (show isBlank '"' = false from rfl), hbody, Option.map_some, Option.elim_some]

/-! ### Arrays and objects -/

/-- The texts of the elements of a list are joined by commas. -/
def Joins {α : Type} (text : α → List Char) (joined : List α → List Char) : Prop :=
  ∀ a as, joined (a :: as) = text a ++ if as = [] then [] else ',' :: joined as

/-- The items of an array are read back if each of them is. Induction on the items. -/
theorem items_joined {text : Json → List Char} {joined : List Json → List Char}
    (hjoins : Joins text joined) {vs : List Json} (hsome : vs ≠ [])
    (hread : ∀ v ∈ vs, ReadsAs (text v) v) {gap : List Char} (hgap : IsGap gap) (fuel : Nat)
    (hfuel : 2 * (joined vs).length < fuel) (rest : List Char) :
    items fuel (joined vs ++ (gap ++ ']' :: rest)) = some (vs, rest) := by
  induction vs generalizing fuel with
  | nil => exact absurd rfl hsome
  | cons v vs ih =>
      obtain ⟨hv, hvs⟩ := List.forall_mem_cons.mp hread
      obtain ⟨fuel, rfl⟩ : ∃ less, fuel = less + 1 := ⟨fuel - 1, by omega⟩
      rw [hjoins, List.length_append] at hfuel
      rw [hjoins, items, List.append_assoc]
      by_cases hnil : vs = []
      · subst hnil
        have hends := (endsNumber_cons (c := ']') rfl rest).gap_append hgap
        rw [if_pos rfl, List.nil_append, hv fuel _ (by omega) hends]
        simp only [skipBlanks_append hgap, skipBlanks_cons (show isBlank ']' = false from rfl)]
      · rw [if_neg hnil, List.length_cons] at hfuel
        have hrest : items fuel (joined vs ++ (gap ++ ']' :: rest)) = some (vs, rest) :=
          ih hnil hvs fuel (by omega)
        rw [if_neg hnil, List.cons_append, hv fuel _ (by omega) (endsNumber_cons rfl _)]
        simp only [skipBlanks_cons (show isBlank ',' = false from rfl), hrest, Option.map_some]

/-- The members of an object are read back if the value of each of them is. Induction on the
members. -/
theorem members_joined (text : Json → List Char) {before : List Char} (hbefore : IsGap before)
    {joined : List (String × Json) → List Char}
    (hjoins : Joins (fun m => before ++ (quote m.1 ++ ':' :: text m.2)) joined)
    {ms : List (String × Json)} (hsome : ms ≠ []) (hread : ∀ m ∈ ms, ReadsAs (text m.2) m.2)
    {gap : List Char} (hgap : IsGap gap) (fuel : Nat) (hfuel : 2 * (joined ms).length < fuel)
    (rest : List Char) :
    members fuel (joined ms ++ (gap ++ '\x7d' :: rest)) =
      some (ms.map fun m => (some m.1, m.2), rest) := by
  induction ms generalizing fuel with
  | nil => exact absurd rfl hsome
  | cons m ms ih =>
      obtain ⟨hm, hms⟩ := List.forall_mem_cons.mp hread
      obtain ⟨fuel, rfl⟩ : ∃ less, fuel = less + 1 := ⟨fuel - 1, by omega⟩
      rw [hjoins] at hfuel ⊢
      simp only [List.length_append, List.length_cons] at hfuel
      have hname := fun rest => stringBody_escaped m.1 rest
      simp only [quote, List.cons_append, List.append_assoc, List.nil_append, members, hname,
        skipBlanks_append hbefore, skipBlanks_cons (show isBlank '"' = false from rfl),
        skipBlanks_cons (show isBlank ':' = false from rfl)]
      by_cases hnil : ms = []
      · subst hnil
        have hends := (endsNumber_cons (c := '\x7d') rfl rest).gap_append hgap
        rw [if_pos rfl, List.nil_append, hm fuel _ (by omega) hends]
        simp only [skipBlanks_append hgap, skipBlanks_cons (show isBlank '\x7d' = false from rfl)]
        rfl
      · rw [if_neg hnil, List.length_cons] at hfuel
        have hrest : members fuel (joined ms ++ (gap ++ '\x7d' :: rest)) =
            some (ms.map fun m => (some m.1, m.2), rest) :=
          ih hnil hms fuel (by omega)
        rw [if_neg hnil, List.cons_append, hm fuel _ (by omega) (endsNumber_cons rfl _)]
        simp only [skipBlanks_cons (show isBlank ',' = false from rfl), hrest, Option.map_some,
          List.map_cons]

/-- No tree starts with a closing bracket, and so no items do. -/
theorem skipBlanks_ne_of_items {fuel : Nat} {cs : List Char} {r : List Json × List Char}
    (h : items fuel cs = some r) (tail : List Char) : skipBlanks cs ≠ ']' :: tail := by
  intro hcs
  match fuel with
  | 0 => cases h
  | 1 => cases h
  | fuel + 2 =>
      rw [items, value, hcs] at h
      cases h

theorem skipBlanks_ne_of_members {fuel : Nat} {cs : List Char}
    {r : List (Option String × Json) × List Char} (h : members fuel cs = some r)
    (tail : List Char) : skipBlanks cs ≠ '\x7d' :: tail := by
  intro hcs
  cases fuel with
  | zero => cases h
  | succ fuel =>
      rw [members, hcs] at h
      cases h

/-- An array with something in it is read by its items. -/
theorem value_of_items {fuel : Nat} {cs rest : List Char} {vs : List Json}
    (h : items fuel cs = some (vs, rest)) :
    value (fuel + 1) ('[' :: cs) = some (.array vs, rest) := by
  rw [value, skipBlanks_cons rfl]
  simp only
  split
  · rename_i heq
    exact absurd heq (skipBlanks_ne_of_items h _)
  · rw [items_skipBlanks, h]
    rfl

theorem ofMembers_named (ms : List (String × Json)) :
    ofMembers (ms.map fun m => (some m.1, m.2)) = .object ms := by
  have hnamed : (ms.map fun m => (some m.1, m.2)).mapM
      (fun m : Option String × Json => m.1.map fun name => (name, m.2)) = some ms := by
    rw [List.mapM_map]
    exact (List.mapM_pure (m := Option) (f := id)).trans (congrArg some (List.map_id ms))
  exact congrArg (fun named : Option (List (String × Json)) => named.elim unreadable object) hnamed

/-- An object with something in it is read by its members. -/
theorem value_of_members {fuel : Nat} {cs rest : List Char} {ms : List (String × Json)}
    (h : members fuel cs = some (ms.map fun m => (some m.1, m.2), rest)) :
    value (fuel + 1) ('\x7b' :: cs) = some (.object ms, rest) := by
  rw [value, skipBlanks_cons rfl]
  simp only
  split
  · rename_i heq
    exact absurd heq (skipBlanks_ne_of_members h _)
  · rw [members_skipBlanks, h, Option.map_some, ofMembers_named]

theorem readsAs_array_nil : ReadsAs ['[', ']'] (.array []) := by
  intro fuel rest hfuel _
  obtain ⟨fuel, rfl⟩ : ∃ less, fuel = less + 1 := ⟨fuel - 1, by simp at hfuel; omega⟩
  rfl

theorem readsAs_object_nil : ReadsAs ['\x7b', '\x7d'] (.object []) := by
  intro fuel rest hfuel _
  obtain ⟨fuel, rfl⟩ : ∃ less, fuel = less + 1 := ⟨fuel - 1, by simp at hfuel; omega⟩
  rfl

theorem readsAs_array {text : Json → List Char} {joined : List Json → List Char}
    (hjoins : Joins text joined) {vs : List Json} (hsome : vs ≠ [])
    (hread : ∀ v ∈ vs, ReadsAs (text v) v) {gap : List Char} (hgap : IsGap gap) :
    ReadsAs ('[' :: joined vs ++ gap ++ [']']) (.array vs) := by
  intro fuel rest hfuel _
  simp only [List.length_append, List.length_cons] at hfuel
  obtain ⟨fuel, rfl⟩ : ∃ less, fuel = less + 1 := ⟨fuel - 1, by omega⟩
  have hitems := items_joined hjoins hsome hread hgap fuel (by omega) rest
  simp only [List.append_assoc, List.cons_append, List.nil_append]
  exact value_of_items hitems

theorem readsAs_object (text : Json → List Char) {before : List Char} (hbefore : IsGap before)
    {joined : List (String × Json) → List Char}
    (hjoins : Joins (fun m => before ++ (quote m.1 ++ ':' :: text m.2)) joined)
    {ms : List (String × Json)} (hsome : ms ≠ []) (hread : ∀ m ∈ ms, ReadsAs (text m.2) m.2)
    {gap : List Char} (hgap : IsGap gap) :
    ReadsAs ('\x7b' :: joined ms ++ gap ++ ['\x7d']) (.object ms) := by
  intro fuel rest hfuel _
  simp only [List.length_append, List.length_cons] at hfuel
  obtain ⟨fuel, rfl⟩ : ∃ less, fuel = less + 1 := ⟨fuel - 1, by omega⟩
  have hmembers := members_joined text hbefore hjoins hsome hread hgap fuel (by omega) rest
  simp only [List.append_assoc, List.cons_append, List.nil_append]
  exact value_of_members hmembers

/-! ### Compact and indented texts -/

theorem joins_compactItems : Joins compactChars compactItems := by
  intro v vs
  cases vs <;> simp [compactItems]

theorem compactMembers_cons (m : String × Json) (ms : List (String × Json)) :
    compactMembers (m :: ms) =
      quote m.1 ++ ':' :: m.2.compactChars ++ if ms = [] then [] else ',' :: compactMembers ms := by
  cases ms <;> simp [compactMembers]

theorem joins_indentedItems (depth : Nat) :
    Joins (fun v => newline depth ++ v.indentedChars depth) (indentedItems depth) := by
  intro v vs
  cases vs <;> simp [indentedItems]

theorem joins_indentedMembers (depth : Nat) :
    Joins (fun m => newline depth ++ (quote m.1 ++ ':' :: ([' '] ++ m.2.indentedChars depth)))
      (indentedMembers depth) := by
  intro m ms
  cases ms <;> simp [indentedMembers]

/-- An indented object begins and ends with a brace. -/
theorem exists_indentedChars_object (depth : Nat) (ms : List (String × Json)) :
    ∃ inner, (object ms).indentedChars depth = '\x7b' :: inner ++ ['\x7d'] := by
  cases ms with
  | nil => exact ⟨[], rfl⟩
  | cons m ms => exact ⟨indentedMembers (depth + 1) (m :: ms) ++ newline depth, rfl⟩

/-- **Trees are read back inside others** from their compact texts. Induction on the tree. -/
theorem Writable.readsAs_compactChars {v : Json} (h : v.Writable) : ReadsAs v.compactChars v := by
  induction h with
  | null => exact readsAs_null
  | bool b => exact readsAs_bool b
  | number hlexeme => exact readsAs_number hlexeme
  | string s => exact readsAs_string s
  | @array vs _ ih =>
      by_cases hnil : vs = []
      · subst hnil
        exact readsAs_array_nil
      · have hread := readsAs_array joins_compactItems hnil ih isGap_nil
        rwa [List.append_nil] at hread
  | @object ms _ ih =>
      by_cases hnil : ms = []
      · subst hnil
        exact readsAs_object_nil
      · have hread := readsAs_object compactChars isGap_nil compactMembers_cons hnil ih isGap_nil
        rwa [List.append_nil] at hread

/-- **Trees are read back inside others** from their indented texts. Induction on the tree. -/
theorem Writable.readsAs_indentedChars {v : Json} (h : v.Writable) (depth : Nat) :
    ReadsAs (v.indentedChars depth) v := by
  induction h generalizing depth with
  | null => exact readsAs_null
  | bool b =>
      have hlayout : indentedChars depth (.bool b) = compactChars (.bool b) := by
        cases b <;> simp only [indentedChars, compactChars]
      rw [hlayout]
      exact readsAs_bool b
  | number hlexeme => exact readsAs_number hlexeme
  | string s => exact readsAs_string s
  | @array vs _ ih =>
      by_cases hnil : vs = []
      · subst hnil
        exact readsAs_array_nil
      · have hread : ∀ v ∈ vs, ReadsAs (newline (depth + 1) ++ v.indentedChars (depth + 1)) v :=
          fun v hv => (ih v hv (depth + 1)).gap_append (isGap_newline (depth + 1))
        rw [indentedChars]
        · exact readsAs_array (joins_indentedItems (depth + 1)) hnil hread (isGap_newline depth)
        · exact hnil
  | @object ms _ ih =>
      by_cases hnil : ms = []
      · subst hnil
        exact readsAs_object_nil
      · have hread : ∀ m ∈ ms, ReadsAs ([' '] ++ m.2.indentedChars (depth + 1)) m.2 :=
          fun m hm => (ih m hm (depth + 1)).gap_append (List.forall_mem_singleton.mpr rfl)
        rw [indentedChars]
        · exact readsAs_object (fun v => [' '] ++ v.indentedChars (depth + 1))
            (isGap_newline (depth + 1)) (joins_indentedMembers (depth + 1)) hnil hread
            (isGap_newline depth)
        · exact hnil

/-- **A tree is read back from its compact text.** -/
theorem Writable.ofText?_compact {v : Json} (h : v.Writable) : ofText? v.compact = some v :=
  ReadsAs.ofText? (by rw [compact, String.toList_ofList]; exact h.readsAs_compactChars)

/-- **A tree is read back from its indented text.** -/
theorem Writable.ofText?_indented {v : Json} (h : v.Writable) : ofText? v.indented = some v :=
  ReadsAs.ofText? (by rw [indented, String.toList_ofList]; exact h.readsAs_indentedChars 0)

end TaggedBytecode.Json
