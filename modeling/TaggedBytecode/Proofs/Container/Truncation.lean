import TaggedBytecode.Proofs.Container.RoundTrip

/-!
# Truncated Containers

The bytes of a container may get lost from some point on. Cut within its header, within the name,
the length or the payload of a section, or before its program is complete, a container is
refused. Cut between two sections behind the program it is again a container, with the same
version, flags and program, and without what was in the sections that are lost: there is no mark
of an end and no count of sections.

Sections are spelled so that none is the beginning of another, whatever their payloads are. That
some bytes are cut off therefore means that sections are cut off, or the last one is not there
as a whole.

## Main definitions

* `Container.cutAfter` — the bytes of a container, cut behind one of its sections.
* `Container.front` — what its first sections hold.

## Main results

* `Section.prefix_of_spelling` — sections whose spelling begins that of others are the first of
  them.
* `Container.decode_cutAfter_eq_ok_iff` — what is read of a container cut behind a section.
* `Container.decode_truncated` — what is read of a container cut anywhere.
-/

namespace TaggedBytecode

/-! ### Prefixes of sections -/

/-- **No section is the beginning of another.** Sections whose spelling begins the spelling of
others are the first of them. Induction on the sections, as each is read in one way. -/
theorem Section.prefix_of_spelling {sections others : List Section} (hall : ∀ s ∈ sections, s.Fits)
    (hothers : ∀ s ∈ others, s.Fits)
    (h : sections.flatMap spelling <+: others.flatMap spelling) : sections <+: others := by
  induction sections generalizing others with
  | nil => exact List.nil_prefix
  | cons s sections ih =>
      obtain ⟨hs, hsections⟩ := List.forall_mem_cons.mp hall
      obtain ⟨rest, hrest⟩ := h
      rw [List.flatMap_cons, List.append_assoc] at hrest
      have hread := read_eq_ok_iff.mpr ⟨hs, hrest.symm⟩
      cases others with
      | nil => cases hread
      | cons t others =>
          obtain ⟨ht, hothers⟩ := List.forall_mem_cons.mp hothers
          rw [List.flatMap_cons, read_eq_ok_iff.mpr ⟨ht, rfl⟩] at hread
          obtain ⟨rfl, htail⟩ := Prod.mk.inj (Except.ok.inj hread)
          exact List.cons_prefix_cons.mpr ⟨rfl, ih hsections hothers ⟨rest, htail.symm⟩⟩

namespace Container

variable {c found : Container} {bytes cut body body' : List UInt8} {n : Nat}

/-! ### Cuts between sections -/

/-- The bytes of a container, cut behind its first `n` sections. -/
def cutAfter (c : Container) (n : Nat) : List UInt8 :=
  headed c.version (Bytes.ofHalf 0) c.flags ((c.sections.take n).flatMap Section.spelling)

/-- What the first `n` sections of a container hold, when there are more: its program, and behind
that its marker table. Its provenance is written last. -/
def front (c : Container) (n : Nat) : Container :=
  { c with
    markers := if n = 1 then none else c.markers
    provenance := none }

theorem length_sections (c : Container) :
    c.sections.length = 1 + c.markers.toList.length + c.knownProvenance.toList.length := by
  rw [sections]
  cases c.markers <;> cases c.knownProvenance <;> rfl

/-- A section behind the first that is not the last is that of the marker table. -/
theorem eq_two_of_lt_length_sections (hbehind : 1 < n) (hlt : n < c.sections.length) :
    n = 2 ∧ c.markers.isSome = true := by
  have hknown : c.knownProvenance.toList.length ≤ 1 := by cases c.knownProvenance <;> simp
  rw [length_sections] at hlt
  cases hmarkers : c.markers with
  | none =>
      rw [hmarkers, Option.toList_none, List.length_nil] at hlt
      omega
  | some t =>
      rw [hmarkers, Option.toList_some, List.length_singleton] at hlt
      exact ⟨by omega, rfl⟩

theorem headed_append (version : UInt16) (reserved : List UInt8) (flags : ContainerFlags)
    (body rest : List UInt8) :
    headed version reserved flags body ++ rest = headed version reserved flags (body ++ rest) :=
  List.append_assoc _ _ _

/-- The bytes of a container go on behind a cut. -/
theorem cutAfter_prefix (c : Container) {m : Nat} (h : m ≤ n) : c.cutAfter m <+: c.cutAfter n := by
  obtain ⟨rest, hrest⟩ := (List.take_prefix_take_left h : c.sections.take m <+: c.sections.take n)
  refine ⟨rest.flatMap Section.spelling, ?_⟩
  rw [cutAfter, cutAfter, headed_append, ← List.flatMap_append, hrest]

/-- The first sections of a container are those of its front. -/
theorem take_sections (hpos : 0 < n) (hlt : n < c.sections.length) :
    c.sections.take n = (c.front n).sections := by
  have hfront : (c.front n).sections = Section.ofKind .program [Payload.ofProgram c.program] ++
      Section.ofKind .markers ((if n = 1 then none else c.markers).map Payload.ofMarkers).toList :=
    List.append_nil _
  rw [hfront]
  obtain rfl | hbehind : 1 = n ∨ 1 < n := Nat.eq_or_lt_of_le hpos
  · rfl
  · obtain ⟨rfl, hsome⟩ := eq_two_of_lt_length_sections hbehind hlt
    obtain ⟨t, ht⟩ := Option.isSome_iff_exists.mp hsome
    rw [sections, ht]
    rfl

/-- A front is written as the container is, up to the cut. -/
theorem encode_front (hencode : c.encode = .ok bytes) (hpos : 0 < n)
    (hlt : n < c.sections.length) : (c.front n).encode = .ok (c.cutAfter n) := by
  rw [cutAfter, take_sections hpos hlt]
  refine encode_eq_ok_iff.mpr ⟨fun s hs => ?_, rfl⟩
  rw [← take_sections hpos hlt] at hs
  exact (encode_eq_ok_iff.mp hencode).1 s (List.mem_of_mem_take hs)

/-- Without a provenance, only what is well-formed is read after it was written. -/
theorem wellFormed_of_decode_of_encode (hencode : c.encode = .ok bytes)
    (hnone : c.provenance = none) (h : decode bytes = .ok found) : c.WellFormed := by
  obtain ⟨hfits, rfl⟩ := encode_eq_ok_iff.mp hencode
  obtain ⟨hversion, -, -, hheld⟩ := (decode_headed_eq_ok_iff rfl hfits).mp h
  refine ⟨hversion, fun t ht => ?_, fun p hp => ?_⟩
  · have hmarkers := hheld.markers
    rw [(payloads_sections c).2.1, Option.mem_def.mp ht] at hmarkers
    obtain ⟨-, t', hread, -⟩ := Holds.cons_iff.mp hmarkers
    obtain ⟨hread, hvalid⟩ := Payload.markers_eq_ok_iff.mp hread
    have hwritten := Payload.read_ofText t.writable_toJson t.shape_toJson
    obtain rfl : t = t' := Except.ok.inj (hwritten.symm.trans hread)
    exact hvalid
  · rw [hnone] at hp
    cases hp

/-- Without a provenance, what was written is read back just if it is well-formed. -/
theorem decode_eq_ok_iff_of_encode (hencode : c.encode = .ok bytes) (hnone : c.provenance = none) :
    decode bytes = .ok found ↔ c.WellFormed ∧ found = c := by
  have hplain : { c with provenance := c.knownProvenance } = c := by
    obtain ⟨version, flags, program, markers, provenance⟩ := c
    cases hnone
    rfl
  constructor
  · intro h
    have hwell : c.WellFormed := wellFormed_of_decode_of_encode hencode hnone h
    have hread := decode_of_encode hwell hencode
    rw [hplain, h] at hread
    exact ⟨hwell, Except.ok.inj hread⟩
  · rintro ⟨hwell, rfl⟩
    rw [decode_of_encode hwell hencode, hplain]

/-- **What is read of a container cut behind a section** is its front. -/
theorem decode_cutAfter_eq_ok_iff (hencode : c.encode = .ok bytes) (hpos : 0 < n)
    (hlt : n < c.sections.length) :
    decode (c.cutAfter n) = .ok found ↔ (c.front n).WellFormed ∧ found = c.front n :=
  decode_eq_ok_iff_of_encode (encode_front hencode hpos hlt) rfl

/-! ### Cuts anywhere -/

/-- A header is spelled in one way. -/
theorem headed_inj {version version' : UInt16} {reserved reserved' : List UInt8}
    {flags flags' : ContainerFlags} (hlength : reserved.length = reserved'.length)
    (h : headed version reserved flags body = headed version' reserved' flags' body') :
    version = version' ∧ reserved = reserved' ∧ flags = flags' ∧ body = body' := by
  simp only [headed, List.append_assoc] at h
  have hversion := congrArg Bytes.half? (List.append_cancel_left h)
  rw [Bytes.half?_ofHalf_append, Bytes.half?_ofHalf_append] at hversion
  obtain ⟨rfl, hbehind⟩ := Prod.mk.inj (Option.some.inj hversion)
  obtain ⟨rfl, hflags⟩ := List.append_inj hbehind hlength
  have hword := congrArg Bytes.word? hflags
  rw [Bytes.word?_ofWord_append, Bytes.word?_ofWord_append] at hword
  obtain ⟨hbits, rfl⟩ := Prod.mk.inj (Option.some.inj hword)
  exact ⟨rfl, rfl, congrArg ContainerFlags.mk hbits, rfl⟩

/-- A container that is cut and can be read is cut behind one of its sections. -/
theorem exists_cutAfter_of_decode (hencode : c.encode = .ok bytes) (hpart : cut <+: bytes)
    (hne : cut ≠ bytes) (h : decode cut = .ok found) :
    ∃ n, 0 < n ∧ n < c.sections.length ∧ cut = c.cutAfter n := by
  obtain ⟨hfits, rfl⟩ := encode_eq_ok_iff.mp hencode
  obtain ⟨reserved, sections, rfl, hreserved, -, hall, hheld⟩ := decode_eq_ok_iff.mp h
  obtain ⟨rest, hrest⟩ := hpart
  rw [headed_append] at hrest
  obtain ⟨hversion, rfl, hflags, hbody⟩ := headed_inj hreserved hrest
  have hsections : sections <+: c.sections := Section.prefix_of_spelling hall hfits ⟨rest, hbody⟩
  have htake : c.sections.take sections.length = sections :=
    (List.prefix_iff_eq_take.mp hsections).symm
  refine ⟨sections.length, List.length_pos_iff.mpr ?_, ?_, ?_⟩
  · rintro rfl
    obtain ⟨count, slots, hpayloads, -⟩ := hheld.program
    cases hpayloads
  · refine Nat.lt_of_le_of_ne hsections.length_le fun hlength => hne ?_
    rw [hsections.eq_of_length hlength, hversion, hflags]
  · rw [cutAfter, htake, hversion, hflags]

/-- **What is read of a container cut anywhere** is one of its fronts. -/
theorem decode_cut_eq_ok_iff (hencode : c.encode = .ok bytes) (hpart : cut <+: bytes)
    (hne : cut ≠ bytes) :
    decode cut = .ok found ↔
      ∃ n, 0 < n ∧ n < c.sections.length ∧ cut = c.cutAfter n ∧ (c.front n).WellFormed ∧
        found = c.front n := by
  constructor
  · intro h
    obtain ⟨n, hpos, hlt, rfl⟩ := exists_cutAfter_of_decode hencode hpart hne h
    exact ⟨n, hpos, hlt, rfl, (decode_cutAfter_eq_ok_iff hencode hpos hlt).mp h⟩
  · rintro ⟨n, hpos, hlt, rfl, hfound⟩
    exact (decode_cutAfter_eq_ok_iff hencode hpos hlt).mpr hfound

theorem markers_front (c : Container) (n : Nat) :
    (c.front n).markers = c.markers ∨ (c.front n).markers = none := by
  rw [front]
  split
  · exact .inr rfl
  · exact .inl rfl

/-- **A container that is cut is never another container.** Of the bytes that are written for a
container, a part from the beginning that is not all of them is refused unless it ends behind one
of its sections, the program or one that comes later. What is read then is the front of the
container up to there, if that is well-formed: a container with the version, the flags and the
program of the whole, with its marker table or none, and without a provenance. -/
theorem decode_truncated (hencode : c.encode = .ok bytes) (hpart : cut <+: bytes)
    (hne : cut ≠ bytes) :
    ((∀ n, 0 < n → n < c.sections.length → cut ≠ c.cutAfter n) → ∃ e, decode cut = .error e) ∧
    (∀ found, decode cut = .ok found ↔
      ∃ n, 0 < n ∧ n < c.sections.length ∧ cut = c.cutAfter n ∧ (c.front n).WellFormed ∧
        found = c.front n) ∧
    ∀ found, decode cut = .ok found →
      found.version = c.version ∧ found.flags = c.flags ∧ found.program = c.program ∧
        (found.markers = c.markers ∨ found.markers = none) ∧ found.provenance = none := by
  refine ⟨fun hcut => ?_, fun found => decode_cut_eq_ok_iff hencode hpart hne,
    fun found h => ?_⟩
  · cases hdecode : decode cut with
    | error e => exact ⟨e, rfl⟩
    | ok found =>
        obtain ⟨n, hpos, hlt, heq⟩ := exists_cutAfter_of_decode hencode hpart hne hdecode
        exact absurd heq (hcut n hpos hlt)
  · obtain ⟨n, -, -, -, -, rfl⟩ := (decode_cut_eq_ok_iff hencode hpart hne).mp h
    exact ⟨rfl, rfl, rfl, c.markers_front n, rfl⟩

/-- A container with all three sections, cut behind its marker table and one byte before. -/
theorem decode_truncated_completeContainer :
    completeContainer.encode = .ok (completeContainer.cutAfter 3) ∧
      completeContainer.cutAfter 2 <+: completeContainer.cutAfter 3 ∧
      completeContainer.cutAfter 2 ≠ completeContainer.cutAfter 3 ∧
      decode (completeContainer.cutAfter 2) = .ok { completeContainer with provenance := none } ∧
      ∃ e, decode (completeContainer.cutAfter 2).dropLast = .error e := by
  have hencode : completeContainer.encode = .ok (completeContainer.cutAfter 3) := by
    refine encode_eq_ok_iff.mpr ⟨(fits_sections (by decide)).mpr ?_, rfl⟩
    rintro p ⟨⟩
    refine Nat.lt_of_le_of_lt (Bytes.length_ofText_le _) ?_
    rw [Json.compact, String.toList_ofList]
    decide
  have hlengths : (completeContainer.cutAfter 1).length = 48 ∧
      (completeContainer.cutAfter 2).length = 125 ∧
      (completeContainer.cutAfter 3).length = 190 := by decide +kernel
  obtain ⟨hfirst, hsecond, hthird⟩ := hlengths
  have hpart := completeContainer.cutAfter_prefix (Nat.le_succ 2)
  have hne : completeContainer.cutAfter 2 ≠ completeContainer.cutAfter 3 := fun heq => by
    rw [heq, hthird] at hsecond
    cases hsecond
  have hwell : (completeContainer.front 2).WellFormed := by
    refine ⟨by decide, ?_, ?_⟩
    · rintro t ⟨⟩
      rfl
    · rintro p ⟨⟩
  have hshort : (completeContainer.cutAfter 2).dropLast.length = 124 := by
    rw [List.length_dropLast, hsecond]
  refine ⟨hencode, hpart, hne, ?_, ?_⟩
  · exact ((decode_truncated hencode hpart hne).2.1 _).mpr
      ⟨2, by decide, by decide, rfl, hwell, rfl⟩
  · refine (decode_truncated hencode ((List.dropLast_prefix _).trans hpart) ?_).1 ?_
    · intro heq
      rw [heq, hthird] at hshort
      cases hshort
    · intro n hpos hlt heq
      have hn : n = 1 ∨ n = 2 := by
        have hthree : completeContainer.sections.length = 3 := rfl
        omega
      rcases hn with rfl | rfl
      · rw [heq, hfirst] at hshort
        cases hshort
      · rw [heq, hsecond] at hshort
        cases hshort

end Container

end TaggedBytecode
