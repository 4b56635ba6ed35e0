import TaggedBytecode.Machine.Execution
import TaggedBytecode.Proofs.Constant.Leading

/-!
# Atomic and Local Reads

A constant is read slot by slot, and may turn out to be cut off or malformed after some of its
slots were taken. The reader does not get stuck halfway: a read that fails leaves the reader
where it was, and a read that succeeds moves it forward by at least one slot, within the
program. What is read is **local**: it depends on the slots that were taken and on no others, so
that neither the slots around them nor the length of the program make a difference.

The position of a run is the instruction pointer of its current frame. A computation that fails
to read an operand leaves the whole execution as it was.

## Main definitions

* `Program.AgreesOn` — programs with the same slots from one position up to another.
* `ReadsLocally` — readers that move forward and depend on the slots that they take.
* `HandlerM.ReadsAtomically` — computations that read an operand or leave the execution alone.

## Main results

* `Decoder.stringPayload_local` — a string depends on its length and its content.
* `Decoder.constant_readsLocally`, `Decoder.slot_readsLocally` — both readers are local.
* `Decoder.reads_atomic_and_local` — reads of programs and of runs.
-/

namespace TaggedBytecode

/-! ### Agreement -/

namespace Program

/-- Another program has the same slots from one position up to another. -/
def AgreesOn (program other : Program) (first stop : Nat) : Prop :=
  ∀ i, first ≤ i → i < stop → other[i]? = program[i]?

variable {program other : Program} {first stop start last : Nat}

theorem AgreesOn.mono (h : program.AgreesOn other first stop) (hstart : first ≤ start)
    (hlast : last ≤ stop) : program.AgreesOn other start last :=
  fun i hi hi' => h i (Nat.le_trans hstart hi) (Nat.lt_of_lt_of_le hi' hlast)

/-- A program that agrees on some slots has them. -/
theorem AgreesOn.le_size (h : program.AgreesOn other first stop) (hlt : first < stop)
    (hstop : stop ≤ program.size) : stop ≤ other.size := by
  have hlast : other[stop - 1]? = some program[stop - 1] :=
    (h _ (Nat.le_sub_one_of_lt hlt) (by omega)).trans (Array.getElem?_eq_getElem (by omega))
  have := (Array.getElem?_eq_some_iff.mp hlast).1
  omega

/-- The slots on which programs agree are the same as a part of them. -/
theorem AgreesOn.extract_eq (h : program.AgreesOn other first stop) (hstop : stop ≤ program.size)
    (hstop' : stop ≤ other.size) : other.extract first stop = program.extract first stop := by
  apply Array.ext_getElem?
  intro i
  rw [Array.getElem?_extract, Array.getElem?_extract, Nat.min_eq_left hstop,
    Nat.min_eq_left hstop']
  split
  · exact h _ (Nat.le_add_right _ _) (by omega)
  · rfl

end Program

/-- A reader that moves forward, within the program, and reads the same from every program that
agrees on the slots it took. -/
def ReadsLocally {α : Type} (read : Program → Nat → Except Fault (α × Nat)) : Prop :=
  ∀ program position a after, read program position = .ok (a, after) →
    position < after ∧ after ≤ program.size ∧
      ∀ other, program.AgreesOn other position after → read other position = .ok (a, after)

namespace Decoder

variable {d : Decoder} {program other : Program} {position after : Nat} {marker : Marker}
  {raw : Int32} {c : Constant} {lead : Lead}

/-! ### Payloads -/

theorem floatPayload_local {x : Binary64} (h : floatPayload program position = .ok (x, after))
    (hagree : program.AgreesOn other position after) :
    floatPayload other position = .ok (x, after) := by
  have hread := floatRead program position
  rw [h] at hread
  cases hread with
  | words hhigh hlow =>
      exact floatPayload_eq ((hagree _ (Nat.le_refl _) (by omega)).trans hhigh)
        ((hagree _ (Nat.le_succ _) (by omega)).trans hlow)

/-- **A string depends on its length and its content**, inline or in a pool. -/
theorem stringPayload_local {s : String} (h : d.stringPayload program position = .ok (s, after))
    (hagree : program.AgreesOn other position after) :
    d.stringPayload other position = .ok (s, after) := by
  have hlt := (stringPayload_bounds h).1
  have hread := d.stringRead program position
  rw [h] at hread
  cases hread with
  | pooled hlength hsign hpool hoffset hinside =>
      rw [stringPayload_eq ((hagree _ (Nat.le_refl _) hlt).trans hlength), if_neg hsign, hpool]
      simp only [pooledString_eq ((hagree _ (Nat.le_succ _) (by omega)).trans hoffset) hsign,
        if_pos hinside]
  | units hlength hsign hpool hsize =>
      have hsize' := hagree.le_size hlt hsize
      rw [stringPayload_eq ((hagree _ (Nat.le_refl _) hlt).trans hlength), if_neg hsign, hpool]
      simp only [inlineUnits, if_neg (Nat.not_lt.mpr hsize'),
        (hagree.mono (Nat.le_succ _) (Nat.le_refl _)).extract_eq hsize hsize']

/-! ### Readers -/

theorem announced_local (h : d.announced program position marker = .ok (c, after))
    (hagree : program.AgreesOn other position after) :
    d.announced other position marker = .ok (c, after) := by
  cases marker with
  | float =>
      obtain ⟨x, hx, rfl⟩ := mapFst_eq_ok_iff.mp h
      rw [announced, floatPayload_local hx hagree]
      rfl
  | string =>
      obtain ⟨s, hs, rfl⟩ := mapFst_eq_ok_iff.mp h
      rw [announced, stringPayload_local hs hagree]
      rfl
  | _ => exact h

theorem led_local (h : d.led program raw position lead = .ok (c, after))
    (hagree : program.AgreesOn other position after) :
    d.led other raw position lead = .ok (c, after) := by
  cases lead with
  | integer | reference => exact h
  | marked marker => exact announced_local h hagree

/-- **Constants are read locally.** -/
theorem constant_readsLocally (d : Decoder) : ReadsLocally d.constant := by
  intro program position c after h
  obtain ⟨hlt, hsize⟩ := constant_bounds h
  refine ⟨hlt, hsize, fun other hagree => ?_⟩
  obtain ⟨raw, hraw, hlead, hled⟩ := exists_lead_of_constant h
  rw [constant_eq_led ((hagree _ (Nat.le_refl _) hlt).trans hraw), hlead]
  exact led_local hled (hagree.mono (Nat.le_succ _) (Nat.le_refl _))

/-- **References are read locally.** -/
theorem slot_readsLocally : ReadsLocally slot := by
  intro program position reference after h
  obtain ⟨hlt, hsize⟩ := slot_bounds h
  refine ⟨hlt, hsize, fun other hagree => ?_⟩
  obtain ⟨raw, hraw, hsign, hreference, hafter⟩ := slot_eq_ok_iff.mp h
  exact slot_eq_ok_iff.mpr
    ⟨raw, (hagree _ (Nat.le_refl _) hlt).trans hraw, hsign, hreference, hafter⟩

end Decoder

/-! ### Runs -/

namespace HandlerM

variable {α : Type}

/-- A computation that fails to read an operand and leaves the execution as it was, or moves the
instruction pointer of the current frame behind the operand and does the same in every program
that agrees on the slots it took. -/
def ReadsAtomically (m : HandlerM α) : Prop :=
  ∀ setup site exec,
    (∃ fault, m setup site exec = .finished (.error (.fault fault)) exec) ∨
    ∃ reply context, m setup site exec = .finished reply { exec with context } ∧
      exec.context.ip < context.ip ∧ context.ip ≤ setup.program.size ∧
      (∀ fault, reply ≠ .error (.fault fault)) ∧
      ∀ other, setup.program.AgreesOn other exec.context.ip context.ip →
        m { setup with program := other } site exec = .finished reply { exec with context }

/-- A computation that reads by a local reader and goes on without a fault, and without moving
the instruction pointer any further, reads atomically. -/
theorem readsAtomically_of_reader {β : Type} {m : HandlerM α}
    {read : Decoder → Program → Nat → Except Fault (β × Nat)}
    (next : β → Context → Except Thrown α × Context) (hread : ∀ d, ReadsLocally (read d))
    (hnext : ∀ b ctx, (next b ctx).2.ip = ctx.ip ∧ ∀ fault, (next b ctx).1 ≠ .error (.fault fault))
    (hm : ∀ setup site exec, m setup site exec =
      match read setup.decoder setup.program exec.context.ip with
      | .ok (b, after) => .finished (next b (exec.context.setIp after)).1
          { exec with context := (next b (exec.context.setIp after)).2 }
      | .error fault => .finished (.error (.fault fault)) exec) :
    m.ReadsAtomically := by
  intro setup site exec
  cases houtcome : read setup.decoder setup.program exec.context.ip with
  | error fault => exact .inl ⟨fault, by rw [hm, houtcome]⟩
  | ok outcome =>
      obtain ⟨b, after⟩ := outcome
      obtain ⟨hlt, hsize, hlocal⟩ := hread _ _ _ _ _ houtcome
      obtain ⟨hip, hfault⟩ := hnext b (exec.context.setIp after)
      have hafter : (next b (exec.context.setIp after)).2.ip = after := hip
      refine .inr ⟨_, _, by rw [hm, houtcome], by rwa [hafter], by rwa [hafter], hfault, ?_⟩
      intro other hagree
      rw [hafter] at hagree
      rw [hm, hlocal other hagree]

theorem constant_readsAtomically : constant.ReadsAtomically := by
  refine readsAtomically_of_reader (fun c ctx => (.ok c, ctx)) Decoder.constant_readsLocally
    (fun _ _ => ⟨rfl, nofun⟩) fun setup site exec => ?_
  simp only [constant, onContext]
  cases setup.decoder.constant setup.program exec.context.ip <;> rfl

theorem write_readsAtomically (value : Val) : (write value).ReadsAtomically := by
  refine readsAtomically_of_reader (fun slot ctx => (.ok (), ctx.store slot value))
    (fun _ => Decoder.slot_readsLocally) (fun _ _ => ⟨rfl, nofun⟩) fun setup site exec => ?_
  simp only [write, onContext, Context.write]
  cases Decoder.slot setup.program exec.context.ip <;> rfl

theorem readVar_readsAtomically : readVar.ReadsAtomically := by
  refine readsAtomically_of_reader
    (fun slot ctx => ((ctx.resolve slot).elim (.error (.unbound slot)) .ok, ctx))
    (fun _ => Decoder.slot_readsLocally) (fun slot ctx => ⟨rfl, fun fault => ?_⟩)
    fun setup site exec => ?_
  · cases ctx.resolve slot <;> rintro ⟨⟩
  · simp only [readVar, Context.readVar]
    cases Decoder.slot setup.program exec.context.ip with
    | error fault => rfl
    | ok read =>
        simp only
        cases (exec.context.setIp read.2).resolve read.1 <;> rfl

end HandlerM

/-- **Reads are atomic, progressing and local.** Under any marker table, valid or not, with any
character transform and with or without a pool, reading a constant or a reference either fails
or moves forward, within the program, to a position up to which only the slots from the old
position on have counted: every program that agrees on them gives the same constant and the same
position. In a run, whether an operand is read as a constant, as a destination or as a variable,
a read that fails leaves everything as it was, the instruction pointer included. -/
theorem Decoder.reads_atomic_and_local (d : Decoder) :
    ReadsLocally d.constant ∧ ReadsLocally Decoder.slot ∧
      HandlerM.constant.ReadsAtomically ∧ (∀ value, (HandlerM.write value).ReadsAtomically) ∧
      HandlerM.readVar.ReadsAtomically :=
  ⟨d.constant_readsLocally, slot_readsLocally, HandlerM.constant_readsAtomically,
    HandlerM.write_readsAtomically, HandlerM.readVar_readsAtomically⟩

end TaggedBytecode
