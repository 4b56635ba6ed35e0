import TaggedBytecode.Disassembly.ValueStats
import TaggedBytecode.Proofs.Constant.Leading

/-!
# Unambiguous Tables

A marker table is **unambiguous** if every slot that it assigns to a marker is read as what that
marker is named for. The valid tables are just these: an odd value would be read as an integer,
and of two markers with one value a decoder only ever finds the first.

Three places tell markers from other slots: the check whether a slot is reserved, the look-up of
its marker for listings, and the decoder. Each goes through the table in its own order. Under a
valid table all three agree on every slot value.

## Main definitions

* `Decoder.HasPayload` — the slots of a valid payload.
* `Decoder.Unmarked` — what is read of a slot that announces nothing.

## Main results

* `Markers.validate_eq_ok_iff_lead` — the valid tables by their leads.
* `Markers.marker?_eq_some_iff` — under a valid table, the look-up finds what a slot announces.
* `Decoder.exists_announced` — a valid payload is read.
* `Decoder.validate_iff_unambiguous` — validity is unambiguity, and the three places agree.
-/

namespace TaggedBytecode

/-! ### Tables -/

namespace Markers

variable {t : Markers} {marker : Marker} {raw : Int32}

theorem nodup_assigned (t : Markers) : (t.assigned.map (·.1)).Nodup := by
  cases h : t.undefinedTag <;> simp [assigned, h]

/-- **The valid tables by their leads**: every slot announces the marker that it is assigned
to. -/
theorem validate_eq_ok_iff_lead :
    t.validate = .ok () ↔
      ∀ marker raw, (marker, raw) ∈ t.assigned → t.lead raw = .marked marker := by
  constructor
  · exact fun hvalid marker raw hmarker => lead_of_assigned hvalid hmarker
  · intro hlead
    refine validate_eq_ok_iff.mpr ⟨fun e he => ?_, ?_⟩
    · refine Bool.eq_false_iff.mpr fun hodd => ?_
      have hmarked := hlead e.1 e.2 he
      rw [lead_eq_integer_iff.mpr hodd] at hmarked
      cases hmarked
    · refine (List.pairwise_map.mp t.nodup_assigned).imp_of_mem fun {e f} he hf hne heq => hne ?_
      have hboth := (hlead e.1 e.2 he).symm.trans (heq ▸ hlead f.1 f.2 hf)
      exact Lead.marked.inj hboth

/-- The look-up finds a marker just if the slot is assigned to one. -/
theorem marker?_isSome_iff : (t.marker? raw).isSome = true ↔ t.isMarker raw = true := by
  rw [isMarker_eq_true_iff, marker?, Option.isSome_map, List.find?_isSome]
  constructor
  · rintro ⟨⟨marker, value⟩, hmem, hvalue⟩
    obtain rfl : value = raw := beq_iff_eq.mp hvalue
    exact ⟨marker, hmem⟩
  · rintro ⟨marker, hmem⟩
    exact ⟨_, hmem, beq_iff_eq.mpr rfl⟩

/-- Under a valid table, the look-up finds what a slot announces. -/
theorem marker?_eq_some_iff (hvalid : t.validate = .ok ()) :
    t.marker? raw = some marker ↔ t.lead raw = .marked marker := by
  have hfound : ∀ {other}, t.marker? raw = some other → t.lead raw = .marked other := by
    intro other h
    obtain ⟨⟨found, value⟩, hfind, hfirst⟩ := Option.map_eq_some_iff.mp h
    obtain rfl : found = other := hfirst
    obtain rfl : value = raw := by simpa using List.find?_some hfind
    exact lead_of_assigned hvalid (List.mem_of_find?_eq_some hfind)
  refine ⟨hfound, fun hlead => ?_⟩
  obtain ⟨other, hother⟩ := Option.isSome_iff_exists.mp
    (marker?_isSome_iff.mpr (isMarker_eq_true_iff.mpr ⟨marker, mem_assigned_of_lead hlead⟩))
  rw [hother, Lead.marked.inj ((hfound hother).symm.trans hlead)]

end Markers

namespace Decoder

variable {d : Decoder} {program : Program} {position : Nat} {marker : Marker} {raw : Int32}

/-! ### Payloads -/

/-- From a position on there are the slots of a valid payload: two words for a float, and for a
string a length that is not negative with its units behind it, or with an offset that lies in the
pool along with the length. -/
def HasPayload (d : Decoder) (program : Program) (position : Nat) : Marker → Prop
  | .float => position + 2 ≤ program.size
  | .string => ∃ length, program[position]? = some length ∧ 0 ≤ length.toInt ∧
      match d.pool with
      | none => position + 1 + length.toInt.toNat ≤ program.size
      | some pool => ∃ offset, program[position + 1]? = some offset ∧ 0 ≤ offset.toInt ∧
          offset.toInt + length.toInt ≤ pool.length
  | _ => True

/-- A valid payload is read. -/
theorem exists_announced (h : d.HasPayload program position marker) :
    ∃ c after, d.announced program position marker = .ok (c, after) := by
  cases marker with
  | float =>
      have hread := floatRead program position
      rw [announced]
      generalize floatPayload program position = outcome at hread
      rw [HasPayload] at h
      cases hread with
      | noHigh hsize | noLow hsize => omega
      | words hhigh hlow => exact ⟨_, _, rfl⟩
  | string =>
      obtain ⟨length, hlength, hsign, hcontent⟩ := h
      have hnonneg : ¬length < 0 := by
        rw [Int32.lt_iff_toInt_lt, Int32.toInt_zero]
        exact Int.not_lt.mpr hsign
      rw [announced, stringPayload_eq hlength, if_neg hnonneg]
      cases hpool : d.pool with
      | none =>
          rw [hpool] at hcontent
          have hinside : ¬program.size < position + 1 + length.toNatClampNeg :=
            Nat.not_lt.mpr hcontent
          simp only [inlineUnits, if_neg hinside]
          exact ⟨_, _, rfl⟩
      | some pool =>
          rw [hpool] at hcontent
          obtain ⟨offset, hoffset, hinside⟩ := hcontent
          simp only [pooledString_eq hoffset hnonneg, if_pos hinside]
          exact ⟨_, _, rfl⟩
  | _ => exact ⟨_, _, rfl⟩

/-- A slot that announces a marker begins a constant of that marker, if its payload is valid. -/
theorem exists_constant_of_lead (hlead : d.markers.lead raw = .marked marker)
    (hraw : program[position]? = some raw) (h : d.HasPayload program (position + 1) marker) :
    ∃ c after, d.constant program position = .ok (c, after) ∧ c.lead = .marked marker := by
  obtain ⟨c, after, hannounced⟩ := exists_announced h
  refine ⟨c, after, ?_, lead_of_announced hannounced⟩
  rw [constant_eq_led hraw, hlead, led, hannounced]

/-- Two zeros are a valid payload of every marker: a float, and an empty string with its offset
or without. -/
theorem hasPayload_zeros (d : Decoder) (raw : Int32) (marker : Marker) :
    d.HasPayload #[raw, 0, 0] 1 marker := by
  cases marker with
  | float => exact Nat.le_refl 3
  | string =>
      refine ⟨0, rfl, Int.le_refl 0, ?_⟩
      cases d.pool with
      | none => exact Nat.le_succ 2
      | some pool => exact ⟨0, rfl, Int.le_refl 0, Int.natCast_nonneg _⟩
  | _ => trivial

/-! ### The decoder -/

/-- What is read of a slot that announces nothing: a small integer, a reference, or the refusal
of a negative reference. -/
inductive Unmarked : Except Fault (Constant × Nat) → Prop
  | smallInt (n : Int32) (after : Nat) : Unmarked (.ok (.smallInt n, after))
  | varRef (slot after : Nat) : Unmarked (.ok (.varRef slot, after))
  | negative (place : Nat) (raw : Int32) :
      Unmarked (.error (.constant place (.negativeReference raw)))

/-- What a marker announces is never taken for a slot that announces nothing, whatever its
payload. -/
theorem not_unmarked_announced : ¬Unmarked (d.announced program position marker) := by
  intro h
  cases marker with
  | float =>
      have hread := floatRead program position
      rw [announced] at h
      generalize floatPayload program position = outcome at hread h
      cases hread <;> cases h
  | string =>
      have hread := d.stringRead program position
      rw [announced] at h
      generalize d.stringPayload program position = outcome at hread h
      cases hread <;> cases h
  | _ => cases h

/-- The decoder takes a slot for unmarked by its lead. -/
theorem unmarked_constant_iff (hraw : program[position]? = some raw) :
    Unmarked (d.constant program position) ↔ ∀ marker, d.markers.lead raw ≠ .marked marker := by
  rw [constant_eq_led hraw]
  constructor
  · intro h marker hlead
    rw [hlead] at h
    exact not_unmarked_announced h
  · intro h
    cases hlead : d.markers.lead raw with
    | integer => exact .smallInt _ _
    | marked marker => exact absurd hlead (h marker)
    | reference =>
        rw [led, slotReference]
        split
        · exact .negative _ _
        · exact .varRef _ _

/-! ### Unambiguity -/

/-- **Validity is unambiguity.** A table is valid if and only if every marker in use, at the
start of a program and with a valid payload behind it, is read as a constant of that marker.
Under a valid table, a slot value is reserved, is found to be a marker and is read neither as an
integer nor as a reference, all three or none of them, wherever it stands and whatever follows.
The marker that is found is then the one of the constant that is read if the payload is valid,
and listings label the value with it. -/
theorem validate_iff_unambiguous (d : Decoder) :
    (d.markers.validate = .ok () ↔
      ∀ marker raw, (marker, raw) ∈ d.markers.assigned →
        ∀ program : Program, program[0]? = some raw → d.HasPayload program 1 marker →
          ∃ c after, d.constant program 0 = .ok (c, after) ∧ c.lead = .marked marker) ∧
    (d.markers.validate = .ok () →
      ∀ (raw : Int32) (program : Program) (position : Nat), program[position]? = some raw →
        (d.markers.isMarker raw = true ↔ (d.markers.marker? raw).isSome = true) ∧
        (d.markers.isMarker raw = true ↔ ¬Unmarked (d.constant program position)) ∧
        ∀ marker, d.markers.marker? raw = some marker →
          (d.HasPayload program (position + 1) marker →
            ∃ c after, d.constant program position = .ok (c, after) ∧ c.lead = .marked marker) ∧
          ∀ opcodes : OpcodeMap, opcodes.get? raw = none →
            ValueStats.label? opcodes d.markers raw = some marker.label) := by
  refine ⟨⟨fun hvalid marker raw hmarker program hraw hpayload => ?_, fun hreads => ?_⟩,
    fun hvalid raw program position hraw => ⟨Markers.marker?_isSome_iff.symm, ?_, ?_⟩⟩
  · exact exists_constant_of_lead (Markers.lead_of_assigned hvalid hmarker) hraw hpayload
  · refine Markers.validate_eq_ok_iff_lead.mpr fun marker raw hmarker => ?_
    obtain ⟨c, after, hconstant, hc⟩ :=
      hreads marker raw hmarker #[raw, 0, 0] rfl (d.hasPayload_zeros raw marker)
    obtain ⟨raw', hraw', hlead, -⟩ := exists_lead_of_constant hconstant
    obtain rfl : raw = raw' := Option.some.inj hraw'
    exact hlead.trans hc
  · rw [unmarked_constant_iff hraw, ← Markers.marker?_isSome_iff, Option.isSome_iff_exists]
    simp only [Markers.marker?_eq_some_iff hvalid, not_forall, not_not]
  · intro marker hmarker
    have hlead := (Markers.marker?_eq_some_iff hvalid).mp hmarker
    refine ⟨exists_constant_of_lead hlead hraw, fun opcodes hopcode => ?_⟩
    rw [ValueStats.label?, hopcode]
    exact congrArg (Option.map Marker.label) hmarker

/-- A decoder with a negative marker for undefined. -/
def negativeUndefined : Decoder := { markers := { undefinedTag := some (-64) } }

/-- The markers with a payload and without are read as what they announce, and the negative marker
is not taken for a negative reference. -/
theorem validate_iff_unambiguous_negativeUndefined :
    negativeUndefined.markers.validate = .ok () ∧
      (∃ c after, negativeUndefined.constant #[46, -1, 0] 0 = .ok (c, after) ∧
        c.lead = .marked .float) ∧
      (∃ c after, negativeUndefined.constant #[37, 2, 1, 104] 1 = .ok (c, after) ∧
        c.lead = .marked .string) ∧
      ¬Unmarked (negativeUndefined.constant #[37, -64] 1) ∧
      ValueStats.label? {} negativeUndefined.markers (-64) = some "UNDEFINED" := by
  obtain ⟨hvalid, hagree⟩ := validate_iff_unambiguous negativeUndefined
  have htable : negativeUndefined.markers.validate = .ok () := rfl
  have hfloat := hvalid.mp htable .float 46 (by decide) #[46, -1, 0] rfl (Nat.le_refl 3)
  have hstring := ((hagree htable 2 #[37, 2, 1, 104] 1 rfl).2.2 .string rfl).1
    ⟨1, rfl, by decide, Nat.le_refl 4⟩
  obtain ⟨-, hread, hlabel⟩ := hagree htable (-64) #[37, -64] 1 rfl
  exact ⟨htable, hfloat, hstring, hread.mp rfl, (hlabel .undefined rfl).2 {} rfl⟩

end Decoder

end TaggedBytecode
