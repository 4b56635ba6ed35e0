import TaggedBytecode.Container.Reader
import TaggedBytecode.Proofs.Constant.Reading

/-!
# The Grammar of Containers

Which bytes are a container, said without the reader: a header, and then sections that end
where the bytes end. One of the sections holds a program, at most one a valid marker table and
at most one a provenance; sections of other names may stand anywhere. The reader accepts these
bytes and no others. Of all other bytes it takes in complete sections only, up to the end of
the bytes or to a rest that is too short for one more section.

## Main definitions

* `Section.spelling`, `Section.Fits` — how a section is spelled.
* `Section.payloads` — the payloads of the sections of one kind.
* `Container.SpelledBy` — the grammar.

## Main results

* `Section.read_eq_ok_iff` — a section is read exactly where it is spelled.
* `Section.exists_split` — the complete sections of some bytes.
* `SectionContents.foldlM_absorb_eq_ok_iff` — what sections hold depends on the payloads of
  each kind.
* `Container.decode_eq_ok_iff` — the reader accepts what the grammar spells.
-/

namespace TaggedBytecode

theorem mapError_eq_ok_iff {ε ε' α : Type} {x : Except ε α} {f : ε → ε'} {a : α} :
    x.mapError f = .ok a ↔ x = .ok a := by
  cases x <;> simp [Except.mapError]

/-! ### Sections -/

/-- The names of the three kinds are different. -/
theorem SectionKind.tag_injective : Function.Injective SectionKind.tag := by
  intro kind other
  cases kind <;> cases other <;> decide

namespace Section

variable {s : Section} {sections : List Section} {bytes rest : List UInt8}

/-- The bytes of a section: its name, the length of its payload, and the payload. -/
def spelling (s : Section) : List UInt8 :=
  s.tag ++ Bytes.ofWord (UInt32.ofNat s.payload.length) ++ s.payload

/-- A section **fits** its fields: its name has four bytes, and so has the length. -/
structure Fits (s : Section) : Prop where
  tag : s.tag.length = 4
  payload : s.payload.length < wordBound

theorem Fits.length_spelling (h : s.Fits) : s.spelling.length = 8 + s.payload.length := by
  simp only [spelling, List.length_append, h.tag, Bytes.length_ofWord]

/-- **A section is read exactly where it is spelled.** -/
theorem read_eq_ok_iff :
    Section.read bytes = .ok (s, rest) ↔ s.Fits ∧ bytes = s.spelling ++ rest := by
  constructor
  · intro h
    rw [Section.read] at h
    split at h
    · cases h
    · rename_i hname
      split at h
      · cases h
      · rename_i length after hword
        split at h
        · cases h
        · rename_i hlength
          obtain ⟨rfl, rfl⟩ := Prod.mk.inj (Except.ok.inj h)
          have hpayload : (after.take length.toNat).length = length.toNat :=
            List.length_take_of_le (Nat.le_of_not_lt hlength)
          refine ⟨⟨List.length_take_of_le (Nat.le_of_not_lt hname), ?_⟩, ?_⟩
          · rw [hpayload]
            exact length.toNat_lt
          · rw [Section.spelling, hpayload, UInt32.ofNat_toNat, List.append_assoc,
              List.take_append_drop, List.append_assoc, ← Bytes.word?_eq_some_iff.mp hword,
              List.take_append_drop]
  · rintro ⟨hfits, rfl⟩
    have hlength : (UInt32.ofNat s.payload.length).toNat = s.payload.length :=
      UInt32.toNat_ofNat_of_lt hfits.payload
    have htag : ∀ after, (s.tag ++ after).drop 4 = after := fun after =>
      List.drop_left' hfits.tag
    rw [Section.read, if_neg (by simp [hfits.length_spelling]; omega)]
    simp only [Section.spelling, List.append_assoc, htag, Bytes.word?_ofWord_append, hlength,
      List.length_append, Nat.not_lt.mpr (Nat.le_add_right _ _), if_false,
      List.take_left' hfits.tag, List.take_left, List.drop_left]

/-- Some bytes start with complete sections, behind which there is nothing that is a section.
Induction on the number of bytes. -/
theorem exists_split (bytes : List UInt8) :
    ∃ (sections : List Section) (rest : List UInt8), (∀ s ∈ sections, s.Fits) ∧
      bytes = sections.flatMap spelling ++ rest ∧ ∃ e, Section.read rest = .error e := by
  induction hlength : bytes.length using Nat.strongRecOn generalizing bytes with
  | _ n ih =>
      cases hread : Section.read bytes with
      | error e => exact ⟨[], bytes, nofun, rfl, e, hread⟩
      | ok read =>
          obtain ⟨s, after⟩ := read
          obtain ⟨hfits, rfl⟩ := read_eq_ok_iff.mp hread
          have hshorter : after.length < n := by
            rw [← hlength, List.length_append, hfits.length_spelling]
            omega
          obtain ⟨sections, rest, hall, rfl, hrest⟩ := ih _ hshorter after rfl
          refine ⟨s :: sections, rest, List.forall_mem_cons.mpr ⟨hfits, hall⟩, ?_, hrest⟩
          rw [List.flatMap_cons, List.append_assoc]

theorem length_le_flatMap (hall : ∀ s ∈ sections, s.Fits) :
    sections.length ≤ (sections.flatMap spelling).length := by
  induction sections with
  | nil => exact Nat.le_refl _
  | cons s sections ih =>
      obtain ⟨hfits, hall⟩ := List.forall_mem_cons.mp hall
      have := ih hall
      rw [List.flatMap_cons, List.length_append, hfits.length_spelling, List.length_cons]
      omega

/-! ### Kinds of sections -/

/-- The payloads of the sections of a kind, in their order. -/
def payloads (kind : SectionKind) (sections : List Section) : List Payload :=
  (sections.filter fun s => s.tag == kind.tag).map Section.payload

@[simp] theorem payloads_nil (kind : SectionKind) : payloads kind [] = [] := rfl

/-- The kind of a section is the one that is named like it. -/
theorem kind?_eq_some_iff {kind : SectionKind} : s.kind? = some kind ↔ s.tag = kind.tag := by
  have named : ∀ {k : SectionKind}, s.kind? = some k → (k.tag == s.tag) = true :=
    fun h => List.find?_some (p := fun kind : SectionKind => kind.tag == s.tag) h
  constructor
  · intro h
    exact (beq_iff_eq.mp (named h)).symm
  · intro h
    have hmem : kind ∈ [SectionKind.program, .markers, .provenance] := by
      cases kind <;> decide
    cases hfound : s.kind? with
    | none =>
        exact absurd (beq_iff_eq.mpr h.symm) (List.find?_eq_none.mp hfound kind hmem)
    | some other =>
        exact congrArg some (SectionKind.tag_injective
          ((beq_iff_eq.mp (named hfound)).trans h))

theorem payloads_cons (kind : SectionKind) (s : Section) (sections : List Section) :
    payloads kind (s :: sections) =
      if s.kind? = some kind then s.payload :: payloads kind sections
      else payloads kind sections := by
  simp only [payloads, List.filter_cons, beq_iff_eq, kind?_eq_some_iff]
  split <;> rfl

end Section

/-- What some payloads hold, of which at most one may be read. If something was found `earlier`,
there is no room for another. -/
inductive Holds {ε α : Type} (read : Payload → Except ε α) :
    (earlier : Option α) → List Payload → Option α → Prop
  | none (earlier : Option α) : Holds read earlier [] earlier
  | one {payload : Payload} {a : α} : read payload = .ok a → Holds read .none [payload] (some a)

theorem Holds.nil_iff {ε α : Type} {read : Payload → Except ε α} {earlier found : Option α} :
    Holds read earlier [] found ↔ found = earlier := by
  constructor
  · rintro ⟨⟩
    rfl
  · rintro rfl
    exact .none _

theorem Holds.cons_iff {ε α : Type} {read : Payload → Except ε α} {earlier found : Option α}
    {payload : Payload} {payloads : List Payload} :
    Holds read earlier (payload :: payloads) found ↔
      earlier = .none ∧ ∃ a, read payload = .ok a ∧ Holds read (some a) payloads found := by
  constructor
  · rintro (_ | hread)
    exact ⟨rfl, _, hread, .none _⟩
  · rintro ⟨rfl, a, hread, hrest⟩
    cases hrest with
    | none => exact .one hread

theorem Holds.some_iff {ε α : Type} {read : Payload → Except ε α} {payloads : List Payload}
    {a : α} :
    Holds read .none payloads (some a) ↔
      ∃ payload, payloads = [payload] ∧ read payload = .ok a := by
  constructor
  · rintro (_ | hread)
    exact ⟨_, rfl, hread⟩
  · rintro ⟨payload, rfl, hread⟩
    exact .one hread

namespace SectionContents

open Section (payloads payloads_cons)

variable {contents after : SectionContents} {s : Section} {sections : List Section}
  {bytes rest : List UInt8}

theorem absorbAll_succ (h : bytes ≠ []) (fuel : Nat) :
    absorbAll contents (fuel + 1) bytes =
      (Section.read bytes).mapError ContainerError.failure >>= fun read =>
        contents.absorb read.1 >>= fun contents => absorbAll contents fuel read.2 := by
  cases bytes with
  | nil => exact absurd rfl h
  | cons b bytes => rfl

/-- Reading takes the complete sections in, one after the other. Induction on the sections. -/
theorem absorbAll_flatMap (hall : ∀ s ∈ sections, s.Fits) {fuel : Nat}
    (hfuel : sections.length ≤ fuel) :
    absorbAll contents fuel (sections.flatMap Section.spelling ++ rest) =
      sections.foldlM absorb contents >>= fun contents =>
        absorbAll contents (fuel - sections.length) rest := by
  induction sections generalizing contents fuel with
  | nil => rfl
  | cons s sections ih =>
      obtain ⟨hfits, hall⟩ := List.forall_mem_cons.mp hall
      obtain ⟨fuel, rfl⟩ := Nat.exists_eq_add_of_le' (Nat.le_trans (Nat.succ_pos _) hfuel)
      have hsome : s.spelling ++ (sections.flatMap Section.spelling ++ rest) ≠ [] := by
        apply List.ne_nil_of_length_pos
        rw [List.length_append, hfits.length_spelling]
        omega
      rw [List.flatMap_cons, List.append_assoc, absorbAll_succ hsome,
        Section.read_eq_ok_iff.mpr ⟨hfits, rfl⟩, List.foldlM_cons]
      cases hs : contents.absorb s with
      | error e => simp [Except.mapError, Bind.bind, Except.bind, hs]
      | ok next =>
          simpa [Except.mapError, Bind.bind, Except.bind, hs] using
            ih hall (Nat.le_of_succ_le_succ hfuel)

theorem once_eq_ok_iff {α : Type} {kind : SectionKind} {earlier : Option α} {u : Unit} :
    once kind earlier = .ok u ↔ earlier = none := by
  cases earlier <;> simp [once]

/-- **What sections hold** depends on the payloads of each kind and on nothing else. Induction
on the sections. -/
theorem foldlM_absorb_eq_ok_iff :
    sections.foldlM absorb contents = .ok after ↔
      Holds Payload.program contents.program (payloads .program sections) after.program ∧
      Holds Payload.markers contents.markers (payloads .markers sections) after.markers ∧
      Holds Payload.provenance contents.provenance (payloads .provenance sections)
        after.provenance := by
  induction sections generalizing contents with
  | nil =>
      simp only [List.foldlM_nil, Section.payloads_nil, Holds.nil_iff, pure, Except.pure,
        Except.ok.injEq]
      constructor
      · rintro rfl
        exact ⟨rfl, rfl, rfl⟩
      · obtain ⟨program, markers, provenance⟩ := after
        rintro ⟨rfl, rfl, rfl⟩
        rfl
  | cons s sections ih =>
      rw [List.foldlM_cons, bind_eq_ok_iff]
      simp only [payloads_cons, absorb]
      cases s.kind? with
      | none => simp [ih]
      | some kind =>
          cases kind <;>
          · simp only [bind_eq_ok_iff, once_eq_ok_iff, mapError_eq_ok_iff, pure, Except.pure,
              Except.ok.injEq, Option.some.injEq, reduceCtorEq, if_true, if_false, ih,
              Holds.cons_iff, exists_const]
            grind

end SectionContents

/-! ### Programs -/

/-- A program is read from a number and four times as many bytes as it says. -/
theorem Payload.program_eq_ok_iff {payload : Payload} {program : Program} :
    Payload.program payload = .ok program ↔
      ∃ count slots, payload = Bytes.ofWord count ++ slots ∧ slots.length = 4 * count.toNat ∧
        program = ((Bytes.words slots).map UInt32.toInt32).toArray := by
  rw [Payload.program]
  constructor
  · intro h
    split at h
    · cases h
    · rename_i count slots hword
      split at h
      · rename_i hlength
        exact ⟨count, slots, Bytes.word?_eq_some_iff.mp hword, hlength, (Except.ok.inj h).symm⟩
      · cases h
  · rintro ⟨count, slots, rfl, hlength, rfl⟩
    simp only [Bytes.word?_ofWord_append, if_pos hlength]

/-! ### Containers -/

namespace Container

variable {bytes body rest : List UInt8} {version : UInt16} {flags : ContainerFlags}
  {sections : List Section} {c : Container}

/-- The bytes of a header with what stands behind it. -/
def headed (version : UInt16) (reserved : List UInt8) (flags : ContainerFlags)
    (body : List UInt8) : List UInt8 :=
  containerMagic ++ Bytes.ofHalf version ++ reserved ++ Bytes.ofWord flags.bits ++ body

/-- What some sections hold is a container: one section holds its program, the number of slots
and then four bytes for each, at most one its marker table, and at most one its provenance. -/
structure HeldBy (c : Container) (sections : List Section) : Prop where
  program : ∃ count slots, Section.payloads .program sections = [Bytes.ofWord count ++ slots] ∧
    slots.length = 4 * count.toNat ∧
    c.program = ((Bytes.words slots).map UInt32.toInt32).toArray
  markers : Holds Payload.markers none (Section.payloads .markers sections) c.markers
  provenance :
    Holds Payload.provenance none (Section.payloads .provenance sections) c.provenance

/-- **The grammar of containers.** Some bytes spell a container: a header of a version that can
be read, in which two bytes have no meaning, and then sections up to the end of the bytes. -/
def SpelledBy (c : Container) (bytes : List UInt8) : Prop :=
  ∃ (reserved : List UInt8) (sections : List Section),
    bytes = headed c.version reserved c.flags (sections.flatMap Section.spelling) ∧
    reserved.length = 2 ∧ c.version ≤ containerVersion ∧ (∀ s ∈ sections, s.Fits) ∧
    c.HeldBy sections

theorem readHeader_headed {reserved : List UInt8} (hreserved : reserved.length = 2) :
    readHeader (headed version reserved flags body) =
      if containerVersion < version then .error (.unsupported version)
      else .ok (version, flags, body) := by
  have hmagic : containerMagic.length = 4 := rfl
  have hafter : (headed version reserved flags body).drop 4 =
      Bytes.ofHalf version ++ (reserved ++ Bytes.ofWord flags.bits ++ body) := by
    simp only [headed, List.append_assoc]
    rfl
  have hbody : (headed version reserved flags body).drop 8 = Bytes.ofWord flags.bits ++ body := by
    rw [show 8 = 4 + 4 from rfl, ← List.drop_drop, hafter, List.append_assoc]
    exact List.drop_left' hreserved
  rw [readHeader, if_neg, if_neg, hafter, hbody, Bytes.half?_ofHalf_append,
    Bytes.word?_ofWord_append]
  · simp only [headed, List.append_assoc]
    exact not_not.mpr rfl
  · simp only [headed, List.length_append, hmagic, Bytes.length_ofHalf, hreserved,
      Bytes.length_ofWord]
    omega

/-- A header is read exactly where it is spelled. -/
theorem readHeader_eq_ok_iff :
    readHeader bytes = .ok (version, flags, body) ↔
      version ≤ containerVersion ∧
        ∃ reserved, reserved.length = 2 ∧ bytes = headed version reserved flags body := by
  constructor
  · intro h
    rw [readHeader] at h
    split at h
    · cases h
    · rename_i hlength
      split at h
      · cases h
      · rename_i hmagic
        split at h
        · rename_i version' after flags' body' hhalf hword
          split at h
          · cases h
          · rename_i hversion
            simp only [Except.ok.injEq, Prod.mk.injEq] at h
            obtain ⟨rfl, rfl, rfl⟩ := h
            have hafter := Bytes.half?_eq_some_iff.mp hhalf
            have hbody : after.drop 2 = Bytes.ofWord flags' ++ body' := by
              rw [← Bytes.word?_eq_some_iff.mp hword, show 8 = 4 + 4 from rfl, ← List.drop_drop,
                hafter]
              rfl
            have hreserved : after.length = bytes.length - 6 := by
              have := congrArg List.length hafter
              simp only [List.length_drop, List.length_append, Bytes.length_ofHalf] at this
              omega
            refine ⟨UInt16.not_lt.mp hversion, after.take 2, ?_, ?_⟩
            · rw [List.length_take]
              omega
            · rw [headed, List.append_assoc, List.append_assoc, ← hbody, List.take_append_drop,
                List.append_assoc, ← hafter, ← not_not.mp hmagic, List.take_append_drop]
        · cases h
  · rintro ⟨hversion, reserved, hreserved, rfl⟩
    rw [readHeader_headed hreserved]
    exact if_neg (UInt16.not_lt.mpr hversion)

/-- What follows from the contents of all sections. -/
def conclude (version : UInt16) (flags : ContainerFlags) (contents : SectionContents) :
    Except Failure Container :=
  match contents.program with
  | none => .error ContainerError.noProgram.failure
  | some program =>
    .ok {
      version, flags, program
      markers := contents.markers
      provenance := contents.provenance }

/-- Behind a header the reader takes complete sections in before it looks at anything else. -/
theorem decode_of_readHeader (hall : ∀ s ∈ sections, s.Fits)
    (hheader : readHeader bytes = .ok (version, flags, sections.flatMap Section.spelling ++ rest)) :
    ∃ fuel, rest.length ≤ fuel ∧
      decode bytes = sections.foldlM SectionContents.absorb {} >>= fun contents =>
        SectionContents.absorbAll contents fuel rest >>= conclude version flags := by
  have hfuel := Section.length_le_flatMap hall
  refine ⟨(sections.flatMap Section.spelling ++ rest).length - sections.length, ?_, ?_⟩
  · rw [List.length_append]
    omega
  · rw [← bind_assoc, ← SectionContents.absorbAll_flatMap hall (by
      rw [List.length_append]
      omega), decode, hheader]
    rfl

/-- Sections up to the end of the bytes are all taken in. -/
theorem decode_of_sections (hall : ∀ s ∈ sections, s.Fits)
    (hheader : readHeader bytes = .ok (version, flags, sections.flatMap Section.spelling)) :
    decode bytes =
      sections.foldlM SectionContents.absorb {} >>= conclude version flags := by
  rw [← List.append_nil (sections.flatMap _)] at hheader
  obtain ⟨fuel, -, hdecode⟩ := decode_of_readHeader hall hheader
  refine hdecode.trans (congrArg _ (funext fun contents => ?_))
  simp only [SectionContents.absorbAll]
  rfl

/-- A rest behind the sections that is no section is the last thing that is wrong. -/
theorem decode_of_rest (hall : ∀ s ∈ sections, s.Fits)
    (hheader : readHeader bytes = .ok (version, flags, sections.flatMap Section.spelling ++ rest))
    (hsome : rest ≠ []) {e : ContainerError} (hrest : Section.read rest = .error e) :
    decode bytes =
      sections.foldlM SectionContents.absorb {} >>= fun _ => .error e.failure := by
  obtain ⟨fuel, hfuel, hdecode⟩ := decode_of_readHeader hall hheader
  obtain ⟨less, rfl⟩ := Nat.exists_eq_add_of_le'
    (Nat.le_trans (List.length_pos_iff.mpr hsome) hfuel)
  refine hdecode.trans (congrArg _ (funext fun contents => ?_))
  rw [SectionContents.absorbAll_succ hsome, hrest]
  rfl

theorem conclude_eq_ok_iff {contents : SectionContents} :
    conclude version flags contents = .ok c ↔
      c.version = version ∧ c.flags = flags ∧
        contents = ⟨some c.program, c.markers, c.provenance⟩ := by
  obtain ⟨program, markers, provenance⟩ := contents
  rw [conclude]
  cases program with
  | none => simp
  | some program =>
      simp only [Except.ok.injEq, SectionContents.mk.injEq, Option.some.injEq]
      constructor
      · rintro rfl
        exact ⟨rfl, rfl, rfl, rfl, rfl⟩
      · obtain ⟨v, f, p, m, q⟩ := c
        rintro ⟨rfl, rfl, rfl, rfl, rfl⟩
        rfl

/-- Taking sections in gives what they hold. -/
theorem foldlM_absorb_eq_ok_iff_heldBy :
    sections.foldlM SectionContents.absorb {} =
        .ok ⟨some c.program, c.markers, c.provenance⟩ ↔ c.HeldBy sections := by
  rw [SectionContents.foldlM_absorb_eq_ok_iff]
  simp only [Holds.some_iff, Payload.program_eq_ok_iff]
  constructor
  · rintro ⟨⟨payload, hpayloads, count, slots, rfl, hlength, hprogram⟩, hmarkers, hprovenance⟩
    exact ⟨⟨count, slots, hpayloads, hlength, hprogram⟩, hmarkers, hprovenance⟩
  · rintro ⟨⟨count, slots, hpayloads, hlength, hprogram⟩, hmarkers, hprovenance⟩
    exact ⟨⟨_, hpayloads, count, slots, rfl, hlength, hprogram⟩, hmarkers, hprovenance⟩

/-- Sections behind a header are read as the container that they hold. -/
theorem decode_headed_eq_ok_iff {reserved : List UInt8} (hreserved : reserved.length = 2)
    (hall : ∀ s ∈ sections, s.Fits) :
    decode (headed version reserved flags (sections.flatMap Section.spelling)) = .ok c ↔
      version ≤ containerVersion ∧ c.version = version ∧ c.flags = flags ∧ c.HeldBy sections := by
  have hheader : readHeader (headed version reserved flags (sections.flatMap Section.spelling)) =
      _ := readHeader_headed hreserved
  by_cases hversion : containerVersion < version
  · rw [if_pos hversion] at hheader
    rw [decode, hheader]
    simp only [UInt16.not_le.mpr hversion, false_and, iff_false]
    exact nofun
  · rw [if_neg hversion] at hheader
    rw [decode_of_sections hall hheader, bind_eq_ok_iff]
    simp only [UInt16.not_lt.mp hversion, true_and, conclude_eq_ok_iff]
    constructor
    · rintro ⟨_, habsorb, rfl, rfl, rfl⟩
      exact ⟨rfl, rfl, foldlM_absorb_eq_ok_iff_heldBy.mp habsorb⟩
    · rintro ⟨rfl, rfl, hheld⟩
      exact ⟨_, foldlM_absorb_eq_ok_iff_heldBy.mpr hheld, rfl, rfl, rfl⟩

/-- **The reader accepts what the grammar spells**, and nothing else. -/
theorem decode_eq_ok_iff : decode bytes = .ok c ↔ c.SpelledBy bytes := by
  constructor
  · intro h
    cases hheader : readHeader bytes with
    | error e =>
        rw [decode, hheader] at h
        cases h
    | ok read =>
        obtain ⟨version, flags, body⟩ := read
        obtain ⟨-, reserved, hreserved, rfl⟩ := readHeader_eq_ok_iff.mp hheader
        obtain ⟨sections, rest, hall, rfl, e, hrest⟩ := Section.exists_split body
        by_cases hnil : rest = []
        · subst hnil
          rw [List.append_nil] at h ⊢
          obtain ⟨hversion, rfl, rfl, hheld⟩ := (decode_headed_eq_ok_iff hreserved hall).mp h
          exact ⟨reserved, sections, rfl, hreserved, hversion, hall, hheld⟩
        · rw [decode_of_rest hall hheader hnil hrest, bind_eq_ok_iff] at h
          obtain ⟨_, -, herror⟩ := h
          cases herror
  · rintro ⟨reserved, sections, rfl, hreserved, hversion, hall, hheld⟩
    exact (decode_headed_eq_ok_iff hreserved hall).mpr ⟨hversion, rfl, rfl, hheld⟩

/-- **Decoding accepts exactly the grammar.** Some bytes are read as a container if and only if
they spell it. Sections of other names, the order of the sections and the reserved bytes make no
difference. All other bytes are refused; the header and the sections that are read on the way
are pieces of the bytes, and what is behind them is refused for being no section. -/
theorem decode_accepts_grammar :
    (∀ bytes (c : Container), decode bytes = .ok c ↔ c.SpelledBy bytes) ∧
    (∀ version flags (reserved reserved' : List UInt8) (sections sections' : List Section) c,
      reserved.length = 2 → reserved'.length = 2 →
      (∀ s ∈ sections, s.Fits) → (∀ s ∈ sections', s.Fits) →
      (∀ kind, Section.payloads kind sections = Section.payloads kind sections') →
      (decode (headed version reserved flags (sections.flatMap Section.spelling)) = .ok c ↔
        decode (headed version reserved' flags (sections'.flatMap Section.spelling)) = .ok c)) ∧
    (∀ bytes, (¬∃ c : Container, c.SpelledBy bytes) → ∃ e, decode bytes = .error e) ∧
    ∀ bytes version flags body, readHeader bytes = .ok (version, flags, body) →
      ∃ (reserved : List UInt8) (sections : List Section) (rest : List UInt8),
        reserved.length = 2 ∧ (∀ s ∈ sections, s.Fits) ∧
        bytes = headed version reserved flags (sections.flatMap Section.spelling ++ rest) ∧
        (rest = [] ∧ decode bytes =
            sections.foldlM SectionContents.absorb {} >>= conclude version flags ∨
          rest ≠ [] ∧ ∃ e, Section.read rest = .error e ∧ decode bytes =
            sections.foldlM SectionContents.absorb {} >>= fun _ => .error e.failure) := by
  refine ⟨fun bytes c => decode_eq_ok_iff, ?_, fun bytes hnone => ?_, ?_⟩
  · intro version flags reserved reserved' sections sections' c hreserved hreserved' hall hall'
      hsame
    rw [decode_headed_eq_ok_iff hreserved hall, decode_headed_eq_ok_iff hreserved' hall']
    simp only [← foldlM_absorb_eq_ok_iff_heldBy, SectionContents.foldlM_absorb_eq_ok_iff, hsame]
  · cases hdecode : decode bytes with
    | error e => exact ⟨e, rfl⟩
    | ok c => exact absurd ⟨c, decode_eq_ok_iff.mp hdecode⟩ hnone
  · intro bytes version flags body hheader
    obtain ⟨-, reserved, hreserved, rfl⟩ := readHeader_eq_ok_iff.mp hheader
    obtain ⟨sections, rest, hall, rfl, e, hrest⟩ := Section.exists_split body
    refine ⟨reserved, sections, rest, hreserved, hall, rfl, ?_⟩
    by_cases hnil : rest = []
    · subst hnil
      rw [List.append_nil] at hheader ⊢
      exact .inl ⟨rfl, decode_of_sections hall hheader⟩
    · exact .inr ⟨hnil, e, hrest, decode_of_rest hall hheader hnil hrest⟩

/-- A section with a program that halts. -/
def haltSection : Section := ⟨SectionKind.program.tag, Payload.ofProgram #[37]⟩

/-- A section without a meaning. -/
def noteSection : Section := ⟨Bytes.ofAscii "NOTE", [1, 2, 3]⟩

theorem decode_accepts_grammar_noteSection :
    Section.payloads .program [noteSection, haltSection, noteSection] =
      [Payload.ofProgram #[37]] ∧
    decode (headed 1 [7, 9] {} ([noteSection, haltSection, noteSection].flatMap Section.spelling)) =
      .ok { program := #[37] } := by
  have hhalt : haltSection.Fits := ⟨rfl, by decide⟩
  have hnote : noteSection.Fits := ⟨rfl, by decide⟩
  have hsame : ∀ kind, Section.payloads kind [haltSection] =
      Section.payloads kind [noteSection, haltSection, noteSection] := by
    intro kind
    cases kind <;> decide
  obtain ⟨-, hdepends, -⟩ := decode_accepts_grammar
  exact ⟨by decide, (hdepends 1 {} [0, 0] [7, 9] [haltSection] _ _ rfl rfl (by simp [hhalt])
    (by simp [hhalt, hnote]) hsame).mp rfl⟩

end Container

end TaggedBytecode
