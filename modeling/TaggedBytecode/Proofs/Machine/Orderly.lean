import TaggedBytecode.Host.Standard
import TaggedBytecode.Proofs.Constant.Reading
import TaggedBytecode.Proofs.Machine.Budget
import TaggedBytecode.Proofs.Machine.Operands
import TaggedBytecode.Proofs.Machine.Unwinding

/-!
# Runs That End in Disorder

A run ends in good order if it halts or faults. It ends in **disorder** if machine arithmetic
fails under an instruction in a way that no program can handle. No operation of the reference
opcodes leads there except an operator that overflows, and the only one that does is the
division of the least integer by minus one. So a run on a budget ends in disorder exactly when
it fetches such a division, and until then its frames, the bases of its calls and the count of
its open calls fit each other.

## Main definitions

* `Progress.Orderly` — a computation that is never aborted, whatever its callees reply.
* `Machine.DividesLeast` — the next instruction divides the least integer by minus one.

## Main results

* `Machine.Standard.progress_of_fetch` — every instruction is orderly or divides the least
  integer.
* `Machine.Reaches.step_eq_aborted_iff` — which steps end in disorder.
* `Machine.aborted_iff_divides_least` — which runs end in disorder.
-/

namespace TaggedBytecode

namespace Progress

/-- A computation is **orderly** if it is never aborted, whatever its callees reply. -/
inductive Orderly {α : Type} : Progress α → Prop
  | finished (reply : Except Thrown α) (exec : Execution) : Orderly (.finished reply exec)
  | suspended {base : Nat} {exec : Execution}
      {resume : Except Thrown Val → Execution → Progress α} :
      (∀ reply exec, Orderly (resume reply exec)) → Orderly (.suspended base exec resume)

theorem Orderly.bind {α β : Type} {p : Progress α} {next : α → Execution → Progress β}
    (hp : p.Orderly) (hnext : ∀ a exec, (next a exec).Orderly) : (p.bind next).Orderly := by
  induction hp with
  | finished reply exec =>
      cases reply with
      | ok a => exact hnext a exec
      | error thrown => exact .finished _ _
  | suspended _ ih => exact .suspended fun reply exec => ih reply exec

end Progress

namespace HandlerM

variable {α β : Type}

/-- A computation that is orderly wherever it starts. -/
def Orderly (m : HandlerM α) : Prop :=
  ∀ setup site exec, (m setup site exec).Orderly

theorem orderly_onContext (f : Setup → Context → Except Fault (α × Context)) :
    (onContext f).Orderly := by
  intro setup site exec
  rw [onContext]
  split <;> exact .finished _ _

theorem orderly_lookUp (slot : Nat) : (lookUp slot).Orderly := by
  intro setup site exec
  rw [lookUp]
  split <;> exact .finished _ _

theorem orderly_popScope : popScope.Orderly := by
  intro setup site exec
  rw [popScope]
  split
  · exact .finished _ _
  · split <;> exact .finished _ _

theorem orderly_callHost (name : String) (args : List Val) : (callHost name args).Orderly := by
  intro setup site exec
  rw [callHost]
  obtain ⟨reply, world⟩ := (setup.host.call name args).run.run exec.world
  cases reply <;> exact .finished _ _

theorem orderly_call (entry : Nat) (args : List Val) : (call entry args).Orderly := by
  intro setup site exec
  rw [call]
  split
  · exact .finished _ _
  · split
    · exact .finished _ _
    · exact .suspended fun reply exec => .finished _ _

/-- Being orderly lasts under composition, and all operations are orderly. -/
theorem closed_orderly : Closed Orderly where
  pure _ := fun _ _ _ => .finished _ _
  bind hm hf := fun setup site exec => (hm setup site exec).bind fun a exec => hf a setup site exec
  throw _ := fun _ _ _ => .finished _ _
  context := fun _ _ _ => .finished _ _
  constant := orderly_onContext _
  lookUp := orderly_lookUp
  write _ := orderly_onContext _
  readVar := fun _ _ _ => .finished _ _
  jump _ := orderly_onContext _
  assign _ _ := orderly_onContext fun _ context => .ok ((), context.assign _ _)
  pushScope _ := orderly_onContext _
  popScope := orderly_popScope
  clearHandler := orderly_onContext _
  takePending := orderly_onContext _
  newIdentity := fun _ _ _ => .finished _ _
  callHost := orderly_callHost
  call := orderly_call

end HandlerM

namespace Reference

open HandlerM (closed_orderly)

variable {setup : Setup} {site : Site} {exec : Execution}

/-- The division of the least integer by minus one, by the operands that an instruction reads. -/
def LeastQuotient (setup : Setup) (site : Site) (exec : Execution) : Prop :=
  ∃ mid after, HandlerM.operand setup site exec = .finished (.ok (.int Int64.minValue)) mid ∧
    HandlerM.operand setup site mid = .finished (.ok (.int (-1))) after

theorem divide_of_leastQuotient (h : LeastQuotient setup site exec) :
    arithmetic Val.div setup site exec = .aborted OperatorError.overflow.message := by
  obtain ⟨mid, after, hleft, hright⟩ := h
  change (HandlerM.operand setup site exec).bind _ = _
  rw [hleft]
  change (HandlerM.operand setup site mid).bind _ = _
  rw [hright]
  rfl

/-- Division is orderly on all other operands. -/
theorem divide_orderly (h : ¬LeastQuotient setup site exec) :
    (arithmetic Val.div setup site exec).Orderly := by
  change ((HandlerM.operand setup site exec).bind _).Orderly
  obtain ⟨left, mid, hleft⟩ := HandlerM.exists_operand setup site exec
  rw [hleft]
  cases left with
  | error thrown => exact .finished _ _
  | ok a =>
      change ((HandlerM.operand setup site mid).bind _).Orderly
      obtain ⟨right, after, hright⟩ := HandlerM.exists_operand setup site mid
      rw [hright]
      cases right with
      | error thrown => exact .finished _ _
      | ok b =>
          have hresult : Val.div a b ≠ .error .overflow := by
            intro hoverflow
            obtain ⟨rfl, rfl⟩ := Val.div_eq_overflow_iff.mp hoverflow
            exact h ⟨mid, after, hleft, hright⟩
          exact (closed_orderly.reading.result hresult _ _ _).bind fun v exec =>
            (closed_orderly.write v _ _ _).bind fun _ _ => .finished _ _

end Reference

/-- A run that came to an end is reported as halted, as faulted or as aborted. -/
theorem Run.ends_of_status {run : Run} {status : Status} (h : ∀ state, status ≠ .running state) :
    (run.ofStatus status).state = .halted ∨
      (∃ fault, (run.ofStatus status).state = .faulted fault) ∨
      ∃ message, status = .aborted message := by
  cases status with
  | running state => exact absurd rfl (h state)
  | stopped exec exit =>
      cases exit with
      | halted | returned _ => exact .inl rfl
      | threw thrown =>
          cases thrown with
          | halt => exact .inl rfl
          | exception _ | fault _ => exact .inr (.inl ⟨_, rfl⟩)
  | aborted message => exact .inr (.inr ⟨message, rfl⟩)

/-- A run that is reported as aborted ended so. -/
theorem Run.status_of_aborted {run : Run} {status : Status} {message : String}
    (h : (run.ofStatus status).state = .aborted message) : status = .aborted message := by
  cases status with
  | running state => cases h
  | stopped exec exit =>
      cases exit with
      | halted | returned _ => cases h
      | threw thrown => cases thrown <;> cases h
  | aborted _ => exact congrArg Status.aborted (RunState.aborted.inj h)

namespace Machine

variable {m : Machine} {state : MachineState} {i : Instruction}

/-- The next instruction divides the least integer by minus one. -/
def DividesLeast (m : Machine) (state : MachineState) : Prop :=
  ∃ i handler begun, m.fetch state.base state.exec = (.ok (i, handler), begun) ∧
    i.name = "DIVIDE" ∧ Reference.LeastQuotient m.toSetup i.toSite begun

/-- What the innermost instruction of a standard machine does: it is orderly, or it divides the
least integer by minus one. -/
theorem Standard.progress_of_fetch (hm : m.Standard) {handler : Handler} {begun : Execution}
    (hfetch : m.fetch state.base state.exec = (.ok (i, handler), begun)) :
    (handler m.toSetup i.toSite begun).Orderly ∨
      (handler m.toSetup i.toSite begun = .aborted OperatorError.overflow.message ∧
        m.DividesLeast state) := by
  obtain ⟨r, hr, hname, rfl⟩ := hm.exists_row_of_fetch hfetch
  by_cases hdivide : r.info.name = "DIVIDE"
  · rw [Reference.row_divide hr hdivide]
    by_cases hleast : Reference.LeastQuotient m.toSetup i.toSite begun
    · exact .inr ⟨Reference.divide_of_leastQuotient hleast, i, _, begun, hfetch,
        hname.trans hdivide, hleast⟩
    · exact .inl (Reference.divide_orderly hleast)
  · exact .inl (Reference.closed_of_mem HandlerM.closed_orderly hr hdivide _ _ _)

end Machine

/-! ### Steps -/

/-- The instructions that wait for callees go on orderly, whatever these reply. -/
def MachineState.Orderly (state : MachineState) : Prop :=
  ∀ s ∈ state.suspended, ∀ reply exec, (s.resume reply exec).Orderly

namespace Machine

variable {m : Machine} {run : Run} {state : MachineState} {i : Instruction} {p : Progress Flow}
  {stack : List Suspension} {L : Nat}

/-- The active instructions of a step are orderly, unless the step divides the least integer. -/
theorem Active.orderly (hm : m.Standard) (ho : state.Orderly) (h : m.Active state i p stack) :
    p.Orderly ∨ (p = .aborted OperatorError.overflow.message ∧ m.DividesLeast state) := by
  induction h with
  | started hfetch => exact hm.progress_of_fetch hfetch
  | resumed hactive _ _ => exact .inl (ho _ (hactive.suffix.subset List.mem_cons_self) _ _)

/-- Steps keep the instructions that wait orderly. -/
theorem orderly_of_step (hm : m.Standard) (hn : state.Nested m.maxCallDepth) (ho : state.Orderly)
    {next : MachineState} (h : m.step state = .running next) : next.Orderly := by
  rcases m.exists_decides state with ⟨fault, exec, hfetch⟩ | ⟨-, i, p, stack, hactive, hd⟩
  · obtain ⟨after, hstep, -⟩ := step_of_fetch_error hn hfetch
    rw [hstep] at h
    cases h
  · have hstack : ∀ s ∈ stack, ∀ reply exec, (s.resume reply exec).Orderly :=
      fun s hs => ho s (hactive.suffix.subset hs)
    rw [h] at hd
    cases hd with
    | goesOn => exact hstack
    | waits hwaits =>
        rcases hactive.orderly hm ho with hp | ⟨rfl, -⟩
        · cases hp with
          | finished reply exec =>
              simp only [turn] at hwaits
              split at hwaits <;> cases hwaits
          | suspended hresume =>
              obtain ⟨rfl, rfl⟩ := Turn.waits.inj hwaits
              exact List.forall_mem_cons.mpr ⟨hresume, hstack⟩
        · cases hwaits

theorem Reaches.orderly (hm : m.Standard) (hrun : run.Fresh) (h : m.Reaches run state) :
    state.Orderly := by
  refine (h.induction (P := fun a => a.Nested m.maxCallDepth ∧ a.Orderly) ?_ ?_).2
  · exact ⟨Reaches.nested hm hrun ⟨0, rfl⟩, nofun⟩
  · exact fun a b ⟨hn, ho⟩ hstep => ⟨nested_of_step hm hn hstep, orderly_of_step hm hn ho hstep⟩

/-- **Which steps end in disorder.** A step that a run comes to is aborted, for an overflow, if
and only if it divides the least integer by minus one. -/
theorem Reaches.step_eq_aborted_iff (hm : m.Standard) (hrun : run.Fresh)
    (h : m.Reaches run state) {message : String} :
    m.step state = .aborted message ↔
      message = OperatorError.overflow.message ∧ m.DividesLeast state := by
  constructor
  · intro hstep
    rcases m.exists_decides state with ⟨fault, exec, hfetch⟩ | ⟨-, i, p, stack, hactive, hd⟩
    · obtain ⟨after, hstopped, -⟩ := step_of_fetch_error (h.nested hm hrun) hfetch
      rw [hstopped] at hstep
      cases hstep
    · rw [hstep] at hd
      cases hd with
      | aborts haborts =>
          rcases hactive.orderly hm (h.orderly hm hrun) with hp | ⟨rfl, hleast⟩
          · cases hp with
            | finished reply exec =>
                simp only [turn] at haborts
                split at haborts <;> cases haborts
            | suspended => cases haborts
          · exact ⟨(Turn.aborts.inj haborts).symm, hleast⟩
  · rintro ⟨rfl, hleast⟩
    obtain ⟨i, handler, begun, hfetch, hname, hquotient⟩ := hleast
    obtain ⟨r, hr, hrow, hhandler⟩ := hm.exists_row_of_fetch hfetch
    have hdivide : handler = Reference.arithmetic Val.div :=
      hhandler.trans (Reference.row_divide hr (hrow.symm.trans hname))
    rw [step, hfetch]
    simp only [hdivide, Reference.divide_of_leastQuotient hquotient, turn, carry]

/-! ### Runs -/

/-- A status that a run ends with is aborted if the step before it is. -/
theorem iterate_aborted_iff (hm : m.Standard) (hrun : run.Fresh) {n : Nat} {message : String}
    (h : ∀ state, m.iterate n { exec := run.exec } ≠ .running state) :
    m.iterate n { exec := run.exec } = .aborted message ↔
      message = OperatorError.overflow.message ∧
        ∃ state, m.Reaches run state ∧ m.DividesLeast state := by
  obtain ⟨k, hk, last, hlast, hstep⟩ := exists_last_step h
  constructor
  · intro haborted
    have hreaches : m.Reaches run last := ⟨k, hlast⟩
    obtain ⟨hmessage, hleast⟩ :=
      (hreaches.step_eq_aborted_iff hm hrun).mp (hstep.trans haborted)
    exact ⟨hmessage, last, hreaches, hleast⟩
  · rintro ⟨rfl, state, hreaches, hleast⟩
    obtain ⟨j, hj⟩ := hreaches
    have hstate : m.Reaches run state := ⟨j, hj⟩
    have haborted := (hstate.step_eq_aborted_iff hm hrun).mpr ⟨rfl, hleast⟩
    have hnext : m.iterate (j + 1) { exec := run.exec } =
        .aborted OperatorError.overflow.message :=
      (iterate_succ_of_running hj).trans haborted
    -- Of two statuses of one run that are not running, neither comes after the other.
    rcases Nat.le_total n (j + 1) with hle | hle
    · exact (iterate_of_le h hle).symm.trans hnext
    · exact (iterate_of_le (fun state => hnext ▸ nofun) hle).trans hnext

/-- **Which runs end in disorder.** Some of the reference opcodes are bound, under any numbers,
and a budget is set. Then every run ends: it halts, it faults, or it is aborted for an overflow,
and the last if and only if it comes to a division of the least integer by minus one. At every
fetch the frames are linked, the innermost call has a frame of its own, and as many calls are
counted open as instructions wait, within the limit. No constant is read beyond the program. -/
theorem aborted_iff_divides_least {map : OpcodeMap}
    (hbind : HandlerTable.bind map Reference.registry = .ok m.table)
    (hbudget : m.maxSteps = some L) (hrun : run.Fresh) :
    ((run.finish m).state = .halted ∨ (∃ fault, (run.finish m).state = .faulted fault) ∨
      (run.finish m).state = .aborted OperatorError.overflow.message) ∧
    ((∃ message, (run.finish m).state = .aborted message) ↔
      ∃ state, m.Reaches run state ∧ m.DividesLeast state) ∧
    (∀ state, m.Reaches run state → state.exec.context.Linked ∧
      state.base < state.exec.context.depth ∧ state.exec.calls = state.suspended.length ∧
      state.exec.calls ≤ m.maxCallDepth) ∧
    ∀ position c after, m.decoder.constant m.program position = .ok (c, after) →
      position < after ∧ after ≤ m.program.size := by
  have hm := standard_of_bind hbind
  have hsame : m.withBudget (some L) = m := by
    rw [withBudget, ← hbudget]
  have hfuel : m.fuel = 2 * L + 1 := by
    rw [fuel, hbudget]
  have hended : ∀ state, m.iterate m.fuel { exec := run.exec } ≠ .running state := by
    have := iterate_ne_running (L := L) (k := m.fuel) hm hrun (by omega)
    rwa [hsame] at this
  have haborted : ∀ message, _ ↔ message = _ ∧ _ := fun _ => iterate_aborted_iff hm hrun hended
  rw [hrun.finish_eq]
  refine ⟨?_, ?_, fun state hstate => ?_, fun _ _ _ => Decoder.constant_bounds⟩
  · rcases Run.ends_of_status hended with hhalted | hfaulted | ⟨message, hstatus⟩
    · exact .inl hhalted
    · exact .inr (.inl hfaulted)
    · obtain ⟨rfl, -⟩ := (haborted message).mp hstatus
      rw [hstatus]
      exact .inr (.inr rfl)
  · constructor
    · rintro ⟨message, hmessage⟩
      have hstatus : m.iterate m.fuel { exec := run.exec } = .aborted message :=
        Run.status_of_aborted hmessage
      exact ((haborted message).mp hstatus).2
    · intro hleast
      exact ⟨_, by rw [(haborted _).mpr ⟨rfl, hleast⟩]; rfl⟩
  · have hn := hstate.nested hm hrun
    exact ⟨hstate.linked hm hrun, state.base_eq ▸ hn.base_lt, hn.calls, hn.calls_le⟩

/-- Two multiplications that make the least integer, and its division by minus one. -/
def leastByMinusOne : Machine :=
  { Reference.machine #[2, -2147483647, -2147483647, 0, 2, 0, -15, 32, 9, 32, -1, 64, 37] with
    host := .standard, maxSteps := some 4 }

theorem aborted_iff_divides_least_leastByMinusOne :
    HandlerTable.bind Reference.map Reference.registry = .ok leastByMinusOne.table ∧
    leastByMinusOne.maxSteps = some 4 ∧ leastByMinusOne.start.Fresh ∧
    ∃ state, leastByMinusOne.Reaches leastByMinusOne.start state ∧
      leastByMinusOne.DividesLeast state := by
  have hrun : leastByMinusOne.start.Fresh := fresh_start _ _ _
  obtain ⟨-, haborted, -⟩ := aborted_iff_divides_least (m := leastByMinusOne)
    Reference.bind_map_registry rfl hrun
  have hends : (leastByMinusOne.start.finish leastByMinusOne).state =
      .aborted OperatorError.overflow.message := rfl
  exact ⟨Reference.bind_map_registry, rfl, hrun, haborted.mp ⟨_, hends⟩⟩

/-- Its run is one that neither halts nor faults. -/
theorem not_halted_or_faulted_leastByMinusOne :
    leastByMinusOne.decoder.markers.validate = .ok () ∧
    HandlerTable.bind Reference.map Reference.registry = .ok leastByMinusOne.table ∧
    leastByMinusOne.maxSteps = some 4 ∧
    ¬((leastByMinusOne.start.finish leastByMinusOne).state = .halted ∨
      ∃ fault, (leastByMinusOne.start.finish leastByMinusOne).state = .faulted fault) := by
  have hends : (leastByMinusOne.start.finish leastByMinusOne).state =
      .aborted OperatorError.overflow.message := rfl
  refine ⟨rfl, Reference.bind_map_registry, rfl, ?_⟩
  rw [hends]
  rintro (hhalted | ⟨fault, hfaulted⟩)
  · cases hhalted
  · cases hfaulted

end Machine

end TaggedBytecode
