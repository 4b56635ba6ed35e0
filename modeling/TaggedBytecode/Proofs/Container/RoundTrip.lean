import Mathlib
import TaggedBytecode.Proofs.Container.Grammar
import TaggedBytecode.Proofs.Document.Written
import TaggedBytecode.Proofs.Text.Utf8

/-!
# Reading Back What Was Written as a Container

Writing a container spells its sections behind a header, the program first. Each payload is read
back as what it was written for, so that reading undoes writing. What is lost is a provenance in
which nothing is known, since it is not written.

Lengths are written in four bytes. A program of fewer than `2 ^ 30 - 1` slots has one that fits,
and so has every marker table; only a provenance can be too long for its section, and then
nothing is written.

## Main definitions

* `Provenance.Ordered` — the notes of a provenance are in ascending order of name.
* `Container.WellFormed` — what every container satisfies that was read.
* `Container.sections` — the sections in which a container is written.

## Main results

* `Payload.program_ofProgram`, `Payload.markers_ofMarkers`, `Payload.provenance_ofProvenance` —
  payloads are read back.
* `Container.wellFormed_of_decode` — containers that were read are well-formed.
* `Container.encode_eq_ok_iff` — what is written for a container.
* `Container.decode_undoes_encode` — reading undoes writing.
-/

namespace TaggedBytecode

/-! ### Programs -/

namespace Payload

/-- Numbers take four bytes each. -/
theorem length_flatMap_ofWord (ns : List UInt32) :
    (ns.flatMap Bytes.ofWord).length = 4 * ns.length := by
  induction ns with
  | nil => rfl
  | cons n ns ih =>
      rw [List.flatMap_cons, List.length_append, ih, Bytes.length_ofWord, List.length_cons]
      omega

/-- The slots of a program are written as numbers without a sign. -/
theorem slots_eq_flatMap (program : Program) :
    (program.toList.flatMap fun v => Bytes.ofWord v.toUInt32) =
      (program.toList.map Int32.toUInt32).flatMap Bytes.ofWord :=
  (List.flatMap_map Int32.toUInt32 Bytes.ofWord _).symm

theorem length_ofProgram (program : Program) :
    (ofProgram program).length = 4 + 4 * program.size := by
  rw [ofProgram, slots_eq_flatMap, List.length_append, length_flatMap_ofWord,
    Bytes.length_ofWord, List.length_map, Array.length_toList]

/-- **A program is read back** if the number of its slots fits. -/
theorem program_ofProgram {program : Program} (h : program.size < wordBound) :
    Payload.program (ofProgram program) = .ok program := by
  have hsize : (UInt32.ofNat program.size).toNat = program.size := UInt32.toNat_ofNat_of_lt h
  refine program_eq_ok_iff.mpr ⟨UInt32.ofNat program.size, _, rfl, ?_, ?_⟩
  · rw [slots_eq_flatMap, length_flatMap_ofWord, List.length_map, Array.length_toList, hsize]
  · rw [slots_eq_flatMap, Bytes.words_flatMap_ofWord, List.map_map]
    have hslot : UInt32.toInt32 ∘ Int32.toUInt32 = id := funext Int32.toInt32_toUInt32
    rw [hslot, List.map_id, Array.toArray_toList]

/-! ### Documents -/

variable {α : Type} {shape : Shape α} {tree : Json} {payload : Payload} {a : α}

/-- The document of a tree is found in its text. -/
theorem document?_ofText (h : tree.Writable) :
    document? (Bytes.ofText tree.compact) = some tree.document := by
  rw [document?, Bytes.chars_ofText, String.ofList_toList, h.ofText?_compact, Option.map_some]

theorem read_ofText (h : tree.Writable) (hshape : shape tree.document = some a) :
    read shape (Bytes.ofText tree.compact) = .ok a := by
  rw [read, document?_ofText h, Option.bind_some, hshape]

theorem exists_document_of_read (h : read shape payload = .ok a) : ∃ d, shape d = some a := by
  rw [read] at h
  split at h
  · rename_i hshape
    obtain ⟨d, -, hd⟩ := Option.bind_eq_some_iff.mp hshape
    exact ⟨d, hd.trans (congrArg some (Except.ok.inj h))⟩
  · cases h

theorem markers_eq_ok_iff {t : Markers} :
    Payload.markers payload = .ok t ↔
      read Markers.shape payload = .ok t ∧ t.validate = .ok () := by
  simp only [Payload.markers, bind_eq_ok_iff, faulting, mapError_eq_ok_iff, pure, Except.pure,
    Except.ok.injEq]
  constructor
  · rintro ⟨_, hread, _, hvalid, rfl⟩
    exact ⟨hread, hvalid⟩
  · rintro ⟨hread, hvalid⟩
    exact ⟨t, hread, (), hvalid, rfl⟩

/-- **A valid marker table is read back.** -/
theorem markers_ofMarkers {t : Markers} (h : t.validate = .ok ()) :
    Payload.markers (ofMarkers t) = .ok t :=
  markers_eq_ok_iff.mpr ⟨read_ofText t.writable_toJson t.shape_toJson, h⟩

end Payload

/-! ### Provenances -/

namespace Provenance

variable {p : Provenance}

/-- The notes are in ascending order of name, each name once. -/
def Ordered (p : Provenance) : Prop := Assoc.Ordered p.tags

/-- Notes are read from their document. -/
theorem tagsShape_document {tags : List (String × String)} (h : Assoc.Ordered tags) :
    tagsShape (Json.object (tags.map fun note => (note.1, .string note.2))).document =
      some tags := by
  have hnotes : (tags.map fun note => (Document.text note.1, Document.text note.2)).mapM
      (fun note => do return (← Shape.string note.1, ← Shape.string note.2)) = some tags := by
    rw [List.mapM_map]
    exact (List.mapM_pure (m := Option) (f := id)).trans (congrArg some (List.map_id tags))
  rw [Json.document, tagsShape, Json.memberDocuments_eq_map, List.map_map]
  refine (congrArg (Option.map Assoc.ofList) hnotes).trans ?_
  rw [Option.map_some, Assoc.ofList_eq_self h]

/-- **A provenance is read from its document** if its notes are in order. -/
theorem shape_toJson (h : p.Ordered) : shape p.toJson.document = some p := by
  have hsource : Shape.optional Shape.string (Json.option .string p.source).document =
      some p.source := by
    cases p.source <;> rfl
  rw [shape, toJson, Shape.record_object (by simp)]
  simp [List.lookup, Shape.withDefault, hsource, tagsShape_document h]

theorem writable_toJson (p : Provenance) : p.toJson.Writable := by
  refine .object fun m hm => ?_
  rcases List.mem_cons.mp hm with rfl | hm
  · cases p.source with
    | none => exact .null
    | some source => exact .string source
  · obtain rfl := List.mem_singleton.mp hm
    refine .object fun note hnote => ?_
    obtain ⟨_, -, rfl⟩ := List.mem_map.mp hnote
    exact .string _

theorem ordered_of_tagsShape {d : Document} {tags : List (String × String)}
    (h : tagsShape d = some tags) : Assoc.Ordered tags := by
  rw [tagsShape.eq_def] at h
  split at h
  · obtain ⟨entries, -, rfl⟩ := Option.map_eq_some_iff.mp h
    exact Assoc.ordered_ofList entries
  · cases h

/-- The notes of a provenance that was read are in order. -/
theorem ordered_of_shape {d : Document} (h : shape d = some p) : p.Ordered := by
  obtain ⟨fields, -, h⟩ := Option.bind_eq_some_iff.mp h
  split at h
  · rename_i source tags
    obtain ⟨source, -, h⟩ := Option.bind_eq_some_iff.mp h
    obtain ⟨notes, hnotes, h⟩ := Option.bind_eq_some_iff.mp h
    obtain rfl := Option.some.inj h
    cases tags with
    | none =>
        obtain rfl := Option.some.inj hnotes
        exact List.Pairwise.nil
    | some d => exact ordered_of_tagsShape hnotes
  · cases h

end Provenance

theorem Payload.provenance_ofProvenance {p : Provenance} (h : p.Ordered) :
    Payload.provenance (Payload.ofProvenance p) = .ok p :=
  Payload.read_ofText p.writable_toJson (Provenance.shape_toJson h)

/-! ### Lengths -/

/-- An integer of 32 bits has at most ten digits and a sign. -/
theorem Json.length_integer_le (v : Int32) : (Json.integer v.toInt).compactChars.length ≤ 11 := by
  have hlow := v.le_toInt
  have hhigh := v.toInt_lt
  have hdigits : (Nat.toDigits 10 v.toInt.natAbs).length ≤ 10 :=
    (Nat.length_toDigits_le_iff (by decide) (by decide)).mpr (by omega)
  rw [integer, compactChars, toList_toString]
  split
  · rw [List.length_cons]
    omega
  · omega

theorem Json.length_compactMembers_le {ms : List (String × Json)} {n : Nat}
    (h : ∀ m ∈ ms, (quote m.1).length + m.2.compactChars.length ≤ n) :
    (compactMembers ms).length ≤ (n + 2) * ms.length := by
  induction ms with
  | nil => exact Nat.le_refl _
  | cons m ms ih =>
      obtain ⟨hm, hms⟩ := List.forall_mem_cons.mp h
      have hrest := ih hms
      rw [compactMembers_cons, List.length_cons, Nat.mul_succ]
      split
      · simp only [List.length_append, List.length_cons, List.length_nil]
        omega
      · simp only [List.length_append, List.length_cons]
        omega

/-- The length of an object whose members are at most `n` long, without colons and commas. -/
theorem Json.length_object_le {ms : List (String × Json)} {n : Nat}
    (h : ∀ m ∈ ms, (quote m.1).length + m.2.compactChars.length ≤ n) :
    (Json.object ms).compactChars.length ≤ (n + 2) * ms.length + 2 := by
  have hmembers := length_compactMembers_le h
  simp only [compactChars, List.length_append, List.length_cons, List.length_nil]
  omega

/-- Every marker table is short. -/
theorem Payload.length_ofMarkers_lt (t : Markers) : (Payload.ofMarkers t).length < wordBound := by
  have hassigned : t.assigned.length ≤ 6 := by
    cases h : t.undefinedTag <;> simp [Markers.assigned, h]
  have hchars : t.toJson.compactChars.length ≤ (11 + 11 + 2) * 6 + 2 := by
    refine Nat.le_trans (Json.length_object_le (n := 11 + 11) fun m hm => ?_) ?_
    · obtain ⟨⟨marker, value⟩, -, rfl⟩ := List.mem_map.mp hm
      have hname : (Json.quote marker.name).length ≤ 11 := by cases marker <;> decide
      exact Nat.add_le_add hname (Json.length_integer_le value)
    · rw [List.length_map]
      omega
  calc (Payload.ofMarkers t).length
      ≤ 4 * t.toJson.compactChars.length := by
        have hbytes := Bytes.length_ofText_le t.toJson.compact
        rwa [Json.compact, String.toList_ofList] at hbytes
    _ ≤ 4 * ((11 + 11 + 2) * 6 + 2) := Nat.mul_le_mul_left 4 hchars
    _ < wordBound := by decide

/-! ### Sections -/

namespace Section

/-- The sections of a kind with some payloads. -/
def ofKind (kind : SectionKind) (payloads : List Payload) : List Section :=
  payloads.map (Section.mk kind.tag)

theorem payloads_append (kind : SectionKind) (sections others : List Section) :
    payloads kind (sections ++ others) = payloads kind sections ++ payloads kind others := by
  rw [payloads, List.filter_append, List.map_append, payloads, payloads]

/-- Sections of one kind have no payloads of another. -/
theorem payloads_ofKind (kind other : SectionKind) (ps : List Payload) :
    payloads kind (ofKind other ps) = if other = kind then ps else [] := by
  induction ps with
  | nil => simp [ofKind]
  | cons payload ps ih =>
      have hkind : (⟨other.tag, payload⟩ : Section).kind? = some kind ↔ other = kind :=
        kind?_eq_some_iff.trans SectionKind.tag_injective.eq_iff
      rw [ofKind, List.map_cons, payloads_cons, ← ofKind, ih]
      simp only [hkind]
      split <;> rfl

theorem fits_mk_iff {kind : SectionKind} {payload : Payload} :
    (⟨kind.tag, payload⟩ : Section).Fits ↔ payload.length < wordBound :=
  ⟨Fits.payload, fun h => ⟨by cases kind <;> rfl, h⟩⟩

end Section

/-- What may be absent is found where it was written, if its payload is read back. -/
theorem Holds.of_written {ε α : Type} {read : Payload → Except ε α} {write : α → Payload}
    {found : Option α} (h : ∀ a ∈ found, read (write a) = .ok a) :
    Holds read .none (found.map write).toList found := by
  cases found with
  | none => exact .none _
  | some a => exact .one (h a rfl)

namespace Container

variable {c : Container} {bytes : List UInt8}

/-- The sections in which a container is written. -/
def sections (c : Container) : List Section :=
  Section.ofKind .program [Payload.ofProgram c.program] ++
    Section.ofKind .markers (c.markers.map Payload.ofMarkers).toList ++
    Section.ofKind .provenance (c.knownProvenance.map Payload.ofProvenance).toList

theorem payloads_sections (c : Container) :
    Section.payloads .program c.sections = [Payload.ofProgram c.program] ∧
    Section.payloads .markers c.sections = (c.markers.map Payload.ofMarkers).toList ∧
    Section.payloads .provenance c.sections =
      (c.knownProvenance.map Payload.ofProvenance).toList := by
  simp [sections, Section.payloads_append, Section.payloads_ofKind]

theorem encodeSection_eq_ok_iff {kind : SectionKind} {payload : Payload} :
    encodeSection kind payload = .ok bytes ↔
      payload.length < wordBound ∧ bytes = (Section.mk kind.tag payload).spelling := by
  rw [encodeSection]
  split
  · rename_i h
    simp only [Except.ok.injEq, h, true_and]
    exact eq_comm
  · rename_i h
    simp [h]

theorem encodeOptional_eq_ok_iff {kind : SectionKind} {payload : Option Payload} :
    encodeOptional kind payload = .ok bytes ↔
      (∀ s ∈ Section.ofKind kind payload.toList, s.Fits) ∧
        bytes = (Section.ofKind kind payload.toList).flatMap Section.spelling := by
  cases payload with
  | none => simp [encodeOptional, Section.ofKind, eq_comm]
  | some payload =>
      simp [encodeOptional, encodeSection_eq_ok_iff, Section.ofKind, Section.fits_mk_iff]

/-- **What is written for a container**: its sections behind a header, if they fit. -/
theorem encode_eq_ok_iff :
    c.encode = .ok bytes ↔ (∀ s ∈ c.sections, s.Fits) ∧
      bytes = headed c.version (Bytes.ofHalf 0) c.flags (c.sections.flatMap Section.spelling) := by
  have hheaded : headed c.version (Bytes.ofHalf 0) c.flags (c.sections.flatMap Section.spelling) =
      c.header ++ (Section.mk SectionKind.program.tag (Payload.ofProgram c.program)).spelling ++
        (Section.ofKind .markers (c.markers.map Payload.ofMarkers).toList).flatMap
          Section.spelling ++
        (Section.ofKind .provenance (c.knownProvenance.map Payload.ofProvenance).toList).flatMap
          Section.spelling := by
    simp only [headed, header, sections, Section.ofKind, List.map_cons, List.map_nil,
      List.flatMap_append, List.flatMap_cons, List.flatMap_nil, List.append_nil, List.append_assoc]
  -- The slots can be counted if their section fits, so that the count is no condition of its own.
  have hprogram : (Payload.ofProgram c.program).length < wordBound → c.program.size < wordBound :=
    fun h => Nat.lt_of_le_of_lt (by rw [Payload.length_ofProgram]; omega) h
  rw [hheaded, encode]
  split
  · simp only [bind_eq_ok_iff, encodeSection_eq_ok_iff, encodeOptional_eq_ok_iff, pure,
      Except.pure, Except.ok.injEq, sections, List.forall_mem_append, Section.ofKind,
      List.map_cons, List.map_nil, List.forall_mem_singleton, Section.fits_mk_iff]
    constructor
    · rintro ⟨_, ⟨hp, rfl⟩, _, ⟨hm, rfl⟩, _, ⟨hq, rfl⟩, rfl⟩
      exact ⟨⟨⟨hp, hm⟩, hq⟩, rfl⟩
    · rintro ⟨⟨⟨hp, hm⟩, hq⟩, rfl⟩
      exact ⟨_, ⟨hp, rfl⟩, _, ⟨hm, rfl⟩, _, ⟨hq, rfl⟩, rfl⟩
  · rename_i hsize
    simp only [sections, List.forall_mem_append, Section.ofKind, List.map_cons, List.map_nil,
      List.forall_mem_singleton, Section.fits_mk_iff, mt hprogram hsize, false_and, reduceCtorEq]

/-- What every container satisfies that was read: it has a version that can be read, its marker
table is valid, and the notes of its provenance are in order. -/
structure WellFormed (c : Container) : Prop where
  version : c.version ≤ containerVersion
  markers : ∀ t ∈ c.markers, t.validate = .ok ()
  provenance : ∀ p ∈ c.provenance, p.Ordered

/-- **Containers that were read are well-formed.** -/
theorem wellFormed_of_decode (h : decode bytes = .ok c) : c.WellFormed := by
  obtain ⟨reserved, sections, -, -, hversion, -, hheld⟩ := decode_eq_ok_iff.mp h
  refine ⟨hversion, fun t ht => ?_, fun p hp => ?_⟩
  · have hmarkers := hheld.markers
    rw [Option.mem_def.mp ht] at hmarkers
    obtain ⟨payload, -, hread⟩ := Holds.some_iff.mp hmarkers
    exact (Payload.markers_eq_ok_iff.mp hread).2
  · have hprovenance := hheld.provenance
    rw [Option.mem_def.mp hp] at hprovenance
    obtain ⟨payload, -, hread⟩ := Holds.some_iff.mp hprovenance
    obtain ⟨d, hd⟩ := Payload.exists_document_of_read hread
    exact Provenance.ordered_of_shape hd

theorem mem_provenance_of_known {p : Provenance} (h : p ∈ c.knownProvenance) :
    p ∈ c.provenance :=
  (Option.mem_filter_iff.mp h).1

/-- What is written for a container holds it, but for a provenance in which nothing is known. -/
theorem heldBy_sections (hc : c.WellFormed) (hsize : c.program.size < wordBound) :
    HeldBy { c with provenance := c.knownProvenance } c.sections := by
  obtain ⟨hprogram, hmarkers, hprovenance⟩ := payloads_sections c
  obtain ⟨count, slots, hpayload, hlength, hslots⟩ :=
    Payload.program_eq_ok_iff.mp (Payload.program_ofProgram hsize)
  refine ⟨⟨count, slots, ?_, hlength, hslots⟩, ?_, ?_⟩
  · rw [hprogram, hpayload]
  · rw [hmarkers]
    exact Holds.of_written fun t ht => Payload.markers_ofMarkers (hc.markers t ht)
  · rw [hprovenance]
    exact Holds.of_written fun p hp =>
      Payload.provenance_ofProvenance (hc.provenance p (mem_provenance_of_known hp))

/-- The section of a program only fits if the slots are few. -/
theorem size_lt_of_fits (h : ∀ s ∈ c.sections, s.Fits) : c.program.size < 2 ^ 30 - 1 := by
  have hprogram : (Payload.ofProgram c.program).length < wordBound :=
    (h ⟨SectionKind.program.tag, Payload.ofProgram c.program⟩ (by
      simp [sections, Section.ofKind])).payload
  rw [Payload.length_ofProgram, wordBound] at hprogram
  omega

/-- What was written for a container is read back. -/
theorem decode_of_encode (hc : c.WellFormed) (h : c.encode = .ok bytes) :
    decode bytes = .ok { c with provenance := c.knownProvenance } := by
  obtain ⟨hfits, rfl⟩ := encode_eq_ok_iff.mp h
  have hsize : c.program.size < wordBound := Nat.lt_trans (size_lt_of_fits hfits) (by decide)
  exact (decode_headed_eq_ok_iff rfl hfits).mpr
    ⟨hc.version, rfl, rfl, heldBy_sections hc hsize⟩

/-- A container of few slots is written if its provenance fits. -/
theorem fits_sections (hsize : c.program.size < 2 ^ 30 - 1) :
    (∀ s ∈ c.sections, s.Fits) ↔
      ∀ p ∈ c.knownProvenance, (Payload.ofProvenance p).length < wordBound := by
  have hprogram : (Payload.ofProgram c.program).length < wordBound := by
    rw [Payload.length_ofProgram, wordBound]
    omega
  have hmarkers : ∀ t, (Payload.ofMarkers t).length < wordBound := Payload.length_ofMarkers_lt
  simp [sections, Section.ofKind, or_imp, forall_and, Section.fits_mk_iff, hprogram, hmarkers]

/-- A container with all three sections. -/
def completeContainer : Container where
  flags := .pooled
  program := #[0, 22, 22, 64, -7, 37]
  markers := some { undefinedTag := some 50 }
  provenance := some { source := some "sample.txt", tags := [("by", "hand"), ("on", "paper")] }

end Container

end TaggedBytecode
