import TaggedBytecode.Machine.Run
import TaggedBytecode.Proofs.Machine.Lawful

/-!
# The Instructions of a Step

A step starts one instruction. Each time an instruction leaves its call, the step resumes the
instruction that made the call, so several instructions can be **active** in one step, from
the innermost call outwards. The turn of the last active one decides where the step leads.

## Main definitions

* `callBase` — where the frames of the innermost call begin.
* `Machine.Active` — the instructions that are active in a step.
* `Machine.Decides` — what the turn of the last active instruction makes of the step.

## Main results

* `Machine.Active.step_eq` — a step is what the turn of any of its active instructions leads to.
* `Machine.Active.exists_decides` — some active instruction decides the step.
* `Machine.forall_suspended_of_carry` — what a step preserves of the suspended instructions.
* `Machine.fetch_eq_ok`, `Machine.fetch_eq_error` — how a step begins.
-/

namespace TaggedBytecode

/-! ### The instructions of a step -/

/-- The number of frames that do not belong to the call above some suspended instructions. -/
def callBase : List Suspension → Nat
  | [] => 0
  | s :: _ => s.base

theorem MachineState.base_eq (state : MachineState) :
    state.base = callBase state.suspended := by
  obtain ⟨exec, suspended⟩ := state
  cases suspended <;> rfl

namespace Machine

/-- The instructions that are active in the step from a state, how far each got, and the
instructions that stay suspended below it: the instruction that is fetched, and every
instruction whose call an active one leaves. -/
inductive Active (m : Machine) (state : MachineState) :
    Instruction → Progress Flow → List Suspension → Prop
  | started {i : Instruction} {handler : Handler} {exec : Execution} :
      m.fetch state.base state.exec = (.ok (i, handler), exec) →
      Active m state i (handler m.toSetup i.toSite exec) state.suspended
  | resumed {i : Instruction} {p : Progress Flow} {s : Suspension} {stack : List Suspension}
      {exit : Exit} {exec : Execution} :
      Active m state i p (s :: stack) → turn i p = .leaves exit exec →
      Active m state s.instruction (s.resume exit.reply exec) stack

/-- What the turn of the last active instruction makes of the step. -/
inductive Decides (i : Instruction) (p : Progress Flow) (stack : List Suspension) :
    Status → Prop
  | goesOn {exec : Execution} : turn i p = .goesOn exec →
      Decides i p stack (.running ⟨exec, stack⟩)
  | waits {s : Suspension} {exec : Execution} : turn i p = .waits s exec →
      Decides i p stack (.running ⟨exec, s :: stack⟩)
  | stops {exit : Exit} {exec : Execution} : stack = [] → turn i p = .leaves exit exec →
      Decides i p stack (.stopped exec exit)
  | aborts {message : String} : turn i p = .aborts message →
      Decides i p stack (.aborted message)

variable {m : Machine} {state : MachineState} {i : Instruction} {p : Progress Flow}
  {stack : List Suspension}

/-- Whichever active instruction one looks at, the step is what its turn leads to. -/
theorem Active.step_eq (h : m.Active state i p stack) :
    m.step state = carry (turn i p) stack := by
  induction h with
  | started hfetch => rw [step, hfetch]
  | resumed _ hturn ih => rw [ih, hturn, carry]

theorem Active.suffix (h : m.Active state i p stack) : stack <:+ state.suspended := by
  induction h with
  | started => exact List.suffix_refl _
  | resumed _ _ ih => exact (List.suffix_cons _ _).trans ih

/-- Some active instruction decides the step. Induction on the suspended instructions. -/
theorem Active.exists_decides (h : m.Active state i p stack) :
    ∃ i' p' stack', m.Active state i' p' stack' ∧ Decides i' p' stack' (m.step state) := by
  induction stack generalizing i p with
  | nil =>
      refine ⟨i, p, [], h, ?_⟩
      rw [h.step_eq]
      cases hturn : turn i p with
      | goesOn exec => exact .goesOn hturn
      | waits s exec => exact .waits hturn
      | leaves exit exec => exact .stops rfl hturn
      | aborts message => exact .aborts hturn
  | cons s stack ih =>
      cases hturn : turn i p with
      | leaves exit exec => exact ih (h.resumed hturn)
      | goesOn exec =>
          refine ⟨i, p, s :: stack, h, ?_⟩
          rw [h.step_eq, hturn]
          exact .goesOn hturn
      | waits t exec =>
          refine ⟨i, p, s :: stack, h, ?_⟩
          rw [h.step_eq, hturn]
          exact .waits hturn
      | aborts message =>
          refine ⟨i, p, s :: stack, h, ?_⟩
          rw [h.step_eq, hturn]
          exact .aborts hturn

/-- **What holds of every suspended instruction** after a turn is carried through the calls around
it: what holds of those before, if it passes to the instructions that wait in the turn of an
instruction that is resumed. Induction on the suspended instructions. -/
theorem forall_suspended_of_carry {P : Suspension → Prop} {t : Turn} {next : MachineState}
    (hresume : ∀ s, P s → ∀ reply exec waiting after,
      turn s.instruction (s.resume reply exec) = .waits waiting after → P waiting)
    (ht : ∀ waiting after, t = .waits waiting after → P waiting) (hstack : ∀ s ∈ stack, P s)
    (h : carry t stack = .running next) : ∀ s ∈ next.suspended, P s := by
  induction stack generalizing t with
  | nil =>
      cases t with
      | goesOn exec =>
          obtain rfl := Status.running.inj h
          exact nofun
      | waits s exec =>
          obtain rfl := Status.running.inj h
          exact List.forall_mem_cons.mpr ⟨ht s exec rfl, nofun⟩
      | leaves exit exec => cases h
      | aborts message => cases h
  | cons s stack ih =>
      cases t with
      | goesOn exec =>
          obtain rfl := Status.running.inj h
          exact hstack
      | waits waiting exec =>
          obtain rfl := Status.running.inj h
          exact List.forall_mem_cons.mpr ⟨ht waiting exec rfl, hstack⟩
      | leaves exit exec =>
          obtain ⟨hs, hrest⟩ := List.forall_mem_cons.mp hstack
          exact ih (hresume s hs _ _) hrest h
      | aborts message => cases h

/-! ### Fetching -/

end Machine

/-- The state in which the instruction of a step starts. -/
def MachineState.begun (state : MachineState) : MachineState where
  exec := { state.exec with
    context := state.exec.context.setIp (state.exec.context.ip + 1)
    steps := state.exec.steps + 1 }
  suspended := state.suspended

namespace Machine

variable {m : Machine} {state : MachineState}

/-- What a fetch that succeeds has found: an opcode at the instruction pointer, within the
budget and with an entry in the table. -/
theorem exists_entry_of_fetch {base : Nat} {exec begun : Execution} {i : Instruction}
    {handler : Handler} (h : m.fetch base exec = (.ok (i, handler), begun)) :
    ∃ opcode entry, m.program[exec.context.ip]? = some opcode ∧
      m.table.get? opcode = some entry ∧
      (∀ limit, m.maxSteps = some limit → exec.steps < limit) ∧
      i = ⟨⟨exec.context.ip, opcode, base⟩, entry.name, exec.context.depth⟩ ∧
      handler = entry.handler ∧
      begun = { exec with
        context := exec.context.setIp (exec.context.ip + 1)
        steps := exec.steps + 1 } := by
  rw [fetch] at h
  simp only at h
  split at h
  · cases h
  · rename_i opcode hopcode
    split at h
    · cases h
    · rename_i hsteps
      split at h
      · cases h
      · rename_i entry hentry
        simp only [Prod.mk.injEq, Except.ok.injEq] at h
        obtain ⟨⟨rfl, rfl⟩, rfl⟩ := h
        refine ⟨opcode, entry, hopcode, hentry, fun limit hlimit => ?_, rfl, rfl, rfl⟩
        simpa [hlimit] using hsteps

theorem fetch_eq_ok {i : Instruction} {handler : Handler} {exec : Execution}
    (h : m.fetch state.base state.exec = (.ok (i, handler), exec)) :
    exec = state.begun.exec ∧ i.base = callBase state.suspended ∧
      (∀ limit, m.maxSteps = some limit → state.exec.steps < limit) ∧
      ∃ opcode entry, m.table.get? opcode = some entry ∧ entry.handler = handler := by
  obtain ⟨opcode, entry, -, hentry, hbudget, rfl, rfl, rfl⟩ := exists_entry_of_fetch h
  exact ⟨rfl, state.base_eq, hbudget, opcode, entry, hentry, rfl⟩

/-- The instruction that is fetched is the one at the instruction pointer, and its handler is
the one that the table has for its opcode. -/
theorem entry_of_fetch {base : Nat} {exec begun : Execution} {i : Instruction} {handler : Handler}
    (h : m.fetch base exec = (.ok (i, handler), begun)) :
    i.address = exec.context.ip ∧ m.program[i.address]? = some i.opcode ∧
      m.table.get? i.opcode = some ⟨i.name, handler⟩ := by
  obtain ⟨opcode, entry, hopcode, hentry, -, rfl, rfl, -⟩ := exists_entry_of_fetch h
  exact ⟨rfl, hopcode, hentry⟩

/-- The frame depth of an instruction is that of its fetch. -/
theorem depth_of_fetch {base : Nat} {exec begun : Execution} {i : Instruction} {handler : Handler}
    (h : m.fetch base exec = (.ok (i, handler), begun)) : i.depth = exec.context.depth := by
  obtain ⟨opcode, entry, -, -, -, rfl, -⟩ := exists_entry_of_fetch h
  rfl

/-- The handler that a standard machine finds for an instruction is that of a row. -/
theorem Standard.exists_row_of_fetch (hm : m.Standard) {base : Nat} {exec begun : Execution}
    {i : Instruction} {handler : Handler} (h : m.fetch base exec = (.ok (i, handler), begun)) :
    ∃ r ∈ Reference.opcodes, i.name = r.info.name ∧ handler = r.handler := by
  obtain ⟨-, -, hentry⟩ := entry_of_fetch h
  exact hm _ _ hentry

theorem fetch_eq_error {fault : Fault} {exec : Execution}
    (h : m.fetch state.base state.exec = (.error fault, exec)) :
    exec.steps = state.exec.steps ∧
      ∀ limit, fault = .stepLimit limit →
        exec = state.exec ∧ m.maxSteps = some limit ∧ limit ≤ state.exec.steps := by
  rw [fetch] at h
  simp only at h
  split at h
  · simp only [Prod.mk.injEq, Except.error.injEq] at h
    obtain ⟨rfl, rfl⟩ := h
    exact ⟨rfl, by simp⟩
  · split at h
    · rename_i hsteps
      simp only [Prod.mk.injEq, Except.error.injEq] at h
      obtain ⟨rfl, rfl⟩ := h
      refine ⟨rfl, fun limit hlimit => ⟨rfl, ?_⟩⟩
      cases hmax : m.maxSteps with
      | none => simp [hmax] at hsteps
      | some budget =>
          simp only [hmax, Option.getD_some, Fault.stepLimit.injEq] at hlimit
          subst hlimit
          exact ⟨rfl, by simpa [hmax] using hsteps⟩
    · split at h
      · simp only [Prod.mk.injEq, Except.error.injEq] at h
        obtain ⟨rfl, rfl⟩ := h
        exact ⟨rfl, by simp⟩
      · cases h

end Machine

end TaggedBytecode
