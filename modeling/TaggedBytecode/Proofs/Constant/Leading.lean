import Mathlib.Data.List.Pairwise
import TaggedBytecode.Proofs.Constant.Reading

/-!
# Leading Slots

The first slot of a constant, its **lead**, says what the constant is: an odd slot is an integer,
a slot that is assigned to a marker announces what the marker stands for, and any other slot is a
reference. A decoder looks for one marker after the other. Under a valid table their order makes
no difference; under any other the first that fits wins.

Everything that is said of constants as a whole is said by their leads: a constant is read by its
lead, so that each statement falls into an integer, a reference and what the markers announce.

## Main definitions

* `Markers.lead` — what a slot says of the constant that it begins; `Constant.lead` — the same,
  said of the constant.
* `Decoder.announced` — what a marker announces.
* `Decoder.led` — what is read behind a lead.

## Main results

* `Decoder.constant_eq_led` — a constant is read by its lead.
* `Decoder.exists_lead_of_constant` — what is read has the lead of its first slot.
* `Decoder.constant_of_odd`, `Decoder.constant_of_assigned`, `Decoder.constant_of_unmarked` —
  the first slot decides what a constant is.
* `Decoder.constant_of_slot` — a reference without a payload marker is a constant of one slot.
* `Decoder.lt_of_constant` — a constant with a payload takes more than one slot.
* `Decoder.constant_bounds` — a constant takes at least one slot, and only slots that exist.
-/

namespace TaggedBytecode

/-- What the first slot of a constant says that the constant is. -/
inductive Lead where
  | integer
  | marked (marker : Marker)
  | reference
  deriving DecidableEq, Repr

/-! ### Leads -/

/-- The lead of the slots that are read as a constant. -/
def Constant.lead : Constant → Lead
  | smallInt _ => .integer
  | float64 _ => .marked .float
  | bool true => .marked .true
  | bool false => .marked .false
  | null => .marked .null
  | str _ => .marked .string
  | varRef _ => .reference
  | undefined => .marked .undefined

namespace Markers

/-- What a slot says of the constant that it begins, by the tests of a decoder in their order. -/
def lead (t : Markers) (raw : Int32) : Lead :=
  if isOdd raw then .integer
  else if raw = t.floatTag then .marked .float
  else if raw = t.trueTag then .marked .true
  else if raw = t.stringTag then .marked .string
  else if raw = t.nullTag then .marked .null
  else if raw = t.falseTag then .marked .false
  else if some raw = t.undefinedTag then .marked .undefined
  else .reference

variable {t : Markers} {marker other : Marker} {raw raw' : Int32}

/-- A slot is reserved if it is assigned to a marker. -/
theorem isMarker_eq_true_iff : t.isMarker raw = true ↔ ∃ marker, (marker, raw) ∈ t.assigned := by
  have hundefined : some raw = t.undefinedTag ↔ ∃ v, t.undefinedTag = some v ∧ v = raw := by
    simp [eq_comm (a := some raw)]
  simp [isMarker, assigned, exists_or, hundefined, or_assoc]

theorem lead_eq_integer_iff : t.lead raw = .integer ↔ isOdd raw = true := by
  constructor
  · intro h
    by_contra hodd
    rw [lead, if_neg hodd] at h
    split_ifs at h
  · exact fun h => if_pos h

theorem lead_eq_reference_iff :
    t.lead raw = .reference ↔ isOdd raw = false ∧ t.isMarker raw = false := by
  rw [lead]
  split_ifs <;> simp [isMarker, *]

/-- A slot announces only what the table assigns to it. -/
theorem mem_assigned_of_lead (h : t.lead raw = .marked marker) : (marker, raw) ∈ t.assigned := by
  rw [lead] at h
  split_ifs at h <;> cases h <;> simp [assigned, eq_comm, *]

/-- In a valid table, different markers have different slots. -/
theorem ne_of_assigned (h : t.validate = .ok ()) (hmarker : (marker, raw) ∈ t.assigned)
    (hother : (other, raw') ∈ t.assigned) (hne : marker ≠ other) : raw ≠ raw' := by
  have hpairwise := (validate_eq_ok_iff.mp h).2
  have : Std.Symm fun e f : Marker × Int32 => e.2 ≠ f.2 := ⟨fun _ _ => Ne.symm⟩
  exact hpairwise.forall hmarker hother fun heq => hne (congrArg Prod.fst heq)

theorem isOdd_of_assigned (h : t.validate = .ok ()) (hmarker : (marker, raw) ∈ t.assigned) :
    isOdd raw = false :=
  (validate_eq_ok_iff.mp h).1 _ hmarker

/-- In a valid table, a slot announces what it is assigned to. -/
theorem lead_of_assigned (h : t.validate = .ok ()) (hmarker : (marker, raw) ∈ t.assigned) :
    t.lead raw = .marked marker := by
  cases hlead : t.lead raw with
  | integer =>
      rw [lead_eq_integer_iff, isOdd_of_assigned h hmarker] at hlead
      cases hlead
  | reference =>
      rw [lead_eq_reference_iff, isMarker_eq_true_iff.mpr ⟨marker, hmarker⟩] at hlead
      cases hlead.2
  | marked other =>
      by_contra hne
      exact ne_of_assigned h hmarker (mem_assigned_of_lead hlead)
        (fun heq => hne (congrArg Lead.marked heq.symm)) rfl

end Markers

/-! ### Constants by their leads -/

namespace Decoder

variable {d : Decoder} {program : Program} {position after : Nat} {marker : Marker}
  {raw : Int32} {c : Constant} {lead : Lead}

/-- What a marker announces, read from the position behind it. -/
def announced (d : Decoder) (program : Program) (position : Nat) :
    Marker → Except Fault (Constant × Nat)
  | .true => .ok (.bool true, position)
  | .null => .ok (.null, position)
  | .float => (floatPayload program position).map fun (x, after) => (.float64 x, after)
  | .false => .ok (.bool false, position)
  | .string => (d.stringPayload program position).map fun (s, after) => (.str s, after)
  | .undefined => .ok (.undefined, position)

/-- What is read behind a lead, from the position behind it. -/
def led (d : Decoder) (program : Program) (raw : Int32) (position : Nat) :
    Lead → Except Fault (Constant × Nat)
  | .integer => .ok (.smallInt (raw >>> 1), position)
  | .marked marker => d.announced program position marker
  | .reference => (slotReference raw position).map fun slot => (.varRef slot, position)

/-- Behind the program there is no constant. -/
theorem constant_of_size (h : program.size ≤ position) :
    d.constant program position = .error (.constant position (.ended .constant)) := by
  rw [constant, takeSlot_eq_error_iff.mpr ⟨h, rfl⟩]
  rfl

/-- **A constant is read by its lead.** -/
theorem constant_eq_led (hraw : program[position]? = some raw) :
    d.constant program position = d.led program raw (position + 1) (d.markers.lead raw) := by
  have htake : takeSlot program position .constant = .ok (raw, position + 1) :=
    takeSlot_eq_ok_iff.mpr ⟨hraw, rfl⟩
  simp only [constant, htake, bind, Except.bind, Markers.lead]
  split_ifs
  case neg => cases hslot : slotReference raw (position + 1) <;> simp only [led, hslot] <;> rfl
  all_goals rfl

/-- What a marker announces is a constant of that marker. -/
theorem lead_of_announced (h : d.announced program position marker = .ok (c, after)) :
    c.lead = .marked marker := by
  cases marker with
  | float | string =>
      obtain ⟨_, -, rfl⟩ := mapFst_eq_ok_iff.mp h
      rfl
  | _ =>
      obtain ⟨rfl, -⟩ := Prod.mk.inj (Except.ok.inj h)
      rfl

/-- What is read behind a lead is a constant with that lead. -/
theorem lead_of_led (h : d.led program raw position lead = .ok (c, after)) : c.lead = lead := by
  cases lead with
  | integer =>
      obtain ⟨rfl, -⟩ := Prod.mk.inj (Except.ok.inj h)
      rfl
  | marked marker => exact lead_of_announced h
  | reference =>
      obtain ⟨reference, -, heq⟩ := map_eq_ok_iff.mp h
      obtain ⟨rfl, -⟩ := Prod.mk.inj heq
      rfl

/-- Where a constant is read, a slot leads to it. -/
theorem exists_lead_of_constant (h : d.constant program position = .ok (c, after)) :
    ∃ raw, program[position]? = some raw ∧ d.markers.lead raw = c.lead ∧
      d.led program raw (position + 1) c.lead = .ok (c, after) := by
  cases hraw : program[position]? with
  | none =>
      rw [constant_of_size (Array.getElem?_eq_none_iff.mp hraw)] at h
      cases h
  | some raw =>
      rw [constant_eq_led hraw] at h
      have hlead := lead_of_led h
      exact ⟨raw, rfl, hlead.symm, hlead ▸ h⟩

/-- An odd slot is a small integer. -/
theorem constant_of_odd (hraw : program[position]? = some raw) (hodd : isOdd raw = true) :
    d.constant program position = .ok (.smallInt (raw >>> 1), position + 1) := by
  rw [constant_eq_led hraw, Markers.lead_eq_integer_iff.mpr hodd]
  rfl

/-- In a valid table, the slot of a marker is the beginning of what the marker announces. -/
theorem constant_of_assigned (hvalid : d.markers.validate = .ok ()) (marker : Marker)
    (hmarker : (marker, raw) ∈ d.markers.assigned) (hraw : program[position]? = some raw) :
    d.constant program position = d.announced program (position + 1) marker := by
  rw [constant_eq_led hraw, Markers.lead_of_assigned hvalid hmarker]
  rfl

/-- Any other slot is a reference. -/
theorem constant_of_unmarked (hraw : program[position]? = some raw) (heven : isOdd raw = false)
    (hmarker : d.markers.isMarker raw = false) :
    d.constant program position =
      (slotReference raw (position + 1)).map fun slot => (.varRef slot, position + 1) := by
  rw [constant_eq_led hraw, Markers.lead_eq_reference_iff.mpr ⟨heven, hmarker⟩]
  rfl

/-- A slot that can be read as a reference and announces no payload is a constant by itself. -/
theorem constant_of_slot {reference : Nat} (h : slot program position = .ok (reference, after))
    (hraw : program[position]? = some raw) (hpayload : ¬d.markers.AnnouncesPayload raw) :
    ∃ c, d.constant program position = .ok (c, after) := by
  obtain ⟨raw', hraw', hsign, -, rfl⟩ := slot_eq_ok_iff.mp h
  obtain rfl : raw = raw' := Option.some.inj (hraw.symm.trans hraw')
  rw [constant_eq_led hraw]
  cases hlead : d.markers.lead raw with
  | integer => exact ⟨_, rfl⟩
  | reference =>
      rw [led, slotReference, if_neg hsign]
      exact ⟨_, rfl⟩
  | marked marker =>
      have hmarker := Markers.mem_assigned_of_lead hlead
      cases marker with
      | float => exact absurd (.inl (by simpa [Markers.assigned] using hmarker)) hpayload
      | string => exact absurd (.inr (by simpa [Markers.assigned] using hmarker)) hpayload
      | _ => exact ⟨_, rfl⟩

/-- In a valid table, the constants of the payload markers take slots behind the marker. -/
theorem lt_of_constant (hvalid : d.markers.validate = .ok ())
    (h : d.constant program position = .ok (c, after)) (hraw : program[position]? = some raw)
    (hpayload : d.markers.AnnouncesPayload raw) : position + 1 < after := by
  rcases hpayload with rfl | rfl
  · rw [constant_of_assigned hvalid .float (by simp [Markers.assigned]) hraw] at h
    obtain ⟨x, hx, -⟩ := mapFst_eq_ok_iff.mp h
    exact (floatPayload_bounds hx).1
  · rw [constant_of_assigned hvalid .string (by simp [Markers.assigned]) hraw] at h
    obtain ⟨s, hs, -⟩ := mapFst_eq_ok_iff.mp h
    exact (stringPayload_bounds hs).1

/-- What is announced takes the slots of a payload, or none. -/
theorem announced_bounds (h : d.announced program position marker = .ok (c, after)) :
    after = position ∨ position < after ∧ after ≤ program.size := by
  cases marker with
  | float =>
      obtain ⟨x, hx, -⟩ := mapFst_eq_ok_iff.mp h
      exact .inr (floatPayload_bounds hx)
  | string =>
      obtain ⟨s, hs, -⟩ := mapFst_eq_ok_iff.mp h
      exact .inr (stringPayload_bounds hs)
  | _ =>
      obtain ⟨-, rfl⟩ := Prod.mk.inj (Except.ok.inj h)
      exact .inl rfl

theorem led_bounds (h : d.led program raw position lead = .ok (c, after)) :
    after = position ∨ position < after ∧ after ≤ program.size := by
  cases lead with
  | integer =>
      obtain ⟨-, rfl⟩ := Prod.mk.inj (Except.ok.inj h)
      exact .inl rfl
  | marked marker => exact announced_bounds h
  | reference =>
      obtain ⟨reference, -, heq⟩ := map_eq_ok_iff.mp h
      exact .inl (Prod.mk.inj heq).2.symm

/-- A constant takes at least one slot, and only slots of the program. -/
theorem constant_bounds (h : d.constant program position = .ok (c, after)) :
    position < after ∧ after ≤ program.size := by
  obtain ⟨raw, hraw, -, hled⟩ := exists_lead_of_constant h
  have hposition := (Array.getElem?_eq_some_iff.mp hraw).1
  rcases led_bounds hled with rfl | hpayload
  · exact ⟨Nat.lt_succ_self _, hposition⟩
  · omega

end Decoder

end TaggedBytecode
