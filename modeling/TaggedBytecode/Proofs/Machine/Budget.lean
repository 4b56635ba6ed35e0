import TaggedBytecode.Proofs.Machine.Nesting

/-!
# The Budget of Instructions

A budget is **exact**: a run with a budget starts no more instructions than that, calls
included, and it ends. It is also **transparent**: a run that its budget does not end is the
run without a budget. The fault of a spent budget goes past every caller and every armed
frame.

Both follow from what the count of instructions does in a step. As long as a run goes on it
counts the steps (`Machine.steps_of_iterate`), and a budget is looked at by a fetch only.

## Main definitions

* `Machine.withBudget` — a machine with another budget.
* `Machine.invocations` — the number of handlers that some steps invoke.

## Main results

* `Machine.iterate_withBudget` — runs under two budgets agree until the smaller one is spent.
* `Machine.budget_exact_and_transparent` — the budget of a run.
-/

namespace TaggedBytecode

/-- A status that is due to a spent budget. -/
def Status.IsSpent (status : Status) : Prop :=
  ∃ exec limit, status = .stopped exec (.threw (.fault (.stepLimit limit)))

theorem Enter.steps {limit : Nat} {a b : MachineState} (h : Enter limit a b) :
    b.exec.steps = a.exec.steps := by
  cases h with
  | call => rfl

namespace Machine

/-- The machine with another budget. -/
def withBudget (m : Machine) (budget : Option Nat) : Machine :=
  { m with maxSteps := budget }

/-- The number of handlers that a machine invokes in its next `n` steps. -/
def invocations (m : Machine) : (n : Nat) → MachineState → Nat
  | 0, _ => 0
  | n + 1, state =>
    (match m.fetch state.base state.exec with
      | (.ok _, _) => 1
      | (.error _, _) => 0) +
    match m.step state with
    | .running next => invocations m n next
    | _ => 0

variable {m : Machine} {run : Run} {state : MachineState} {L : Nat}

theorem Standard.withBudget (hm : m.Standard) (budget : Option Nat) :
    (m.withBudget budget).Standard :=
  hm

/-! ### Counting steps -/

/-- A step that does not end the run counts one instruction, within the budget. -/
theorem steps_of_step (hm : m.Standard) (hn : state.Nested m.maxCallDepth)
    {next : MachineState} (h : m.step state = .running next) :
    next.exec.steps = state.exec.steps + 1 ∧
      ∀ limit, m.maxSteps = some limit → state.exec.steps < limit := by
  obtain ⟨hbudget, mid, -, -, -, hmoves, hnext⟩ := step_running hm hn h
  have hmid : mid.exec.steps = state.exec.steps + 1 := Moves.steps hmoves
  rcases hnext with rfl | henter
  · exact ⟨hmid, hbudget⟩
  · exact ⟨henter.steps.trans hmid, hbudget⟩

/-- As long as a run goes on it counts the steps, and keeps within the budget. -/
theorem steps_of_iterate (hm : m.Standard) (hrun : run.Fresh) {n : Nat}
    (h : m.iterate n { exec := run.exec } = .running state) :
    state.exec.steps = n ∧ ∀ limit, m.maxSteps = some limit → n ≤ limit := by
  induction n generalizing state with
  | zero =>
      simp only [iterate, Status.running.injEq] at h
      exact ⟨h ▸ hrun.steps, fun _ _ => Nat.zero_le _⟩
  | succ n ih =>
      rw [iterate_succ] at h
      cases hprev : m.iterate n { exec := run.exec } with
      | running before =>
          rw [hprev] at h
          have hn := Reaches.nested hm hrun ⟨n, hprev⟩
          obtain ⟨hsteps, hbudget⟩ := steps_of_step hm hn h
          rw [(ih hprev).1] at hsteps hbudget
          exact ⟨hsteps, hbudget⟩
      | _ =>
          rw [hprev] at h
          cases h

/-- A status other than running does not change any more. -/
theorem iterate_of_le {n k : Nat} {first : MachineState}
    (h : ∀ state, m.iterate n first ≠ .running state) (hle : n ≤ k) :
    m.iterate k first = m.iterate n first := by
  induction hle with
  | refl => rfl
  | step _ ih =>
      rw [iterate_succ, ih]
      cases hn : m.iterate n first with
      | running state => exact absurd hn (h state)
      | _ => rfl

/-- What ended was running before its last step. -/
theorem exists_last_step {n : Nat} {first : MachineState}
    (h : ∀ state, m.iterate n first ≠ .running state) :
    ∃ k < n, ∃ last, m.iterate k first = .running last ∧ m.step last = m.iterate n first := by
  induction n with
  | zero => exact absurd rfl (h first)
  | succ n ih =>
      rw [iterate_succ] at h ⊢
      cases hn : m.iterate n first with
      | running last => exact ⟨n, Nat.lt_succ_self n, last, hn, rfl⟩
      | _ =>
          rw [hn] at ih
          obtain ⟨k, hk, last, hlast, hstep⟩ := ih nofun
          exact ⟨k, Nat.lt_succ_of_lt hk, last, hlast, hstep⟩

/-- A run with a budget ends within one step more than the budget. -/
theorem iterate_ne_running (hm : m.Standard) (hrun : run.Fresh) {k : Nat} (hk : L < k) :
    ∀ state, (m.withBudget (some L)).iterate k { exec := run.exec } ≠ .running state := by
  intro state h
  have hle := (steps_of_iterate (hm.withBudget _) hrun h).2 L rfl
  omega

theorem invocations_le (hm : m.Standard) {n : Nat}
    (hn : state.Nested m.maxCallDepth) :
    (m.withBudget (some L)).invocations n state ≤ L - state.exec.steps := by
  induction n generalizing state with
  | zero => exact Nat.zero_le _
  | succ n ih =>
      rw [invocations]
      cases hfetch : (m.withBudget (some L)).fetch state.base state.exec with
      | mk result exec =>
          cases result with
          | error fault =>
              obtain ⟨after, hstep, -⟩ := step_of_fetch_error (m := m.withBudget (some L)) hn hfetch
              simp only [hstep, Nat.add_zero, Nat.zero_le]
          | ok started =>
              have hlt := (fetch_eq_ok hfetch).2.2.1 L rfl
              cases hstep : (m.withBudget (some L)).step state with
              | running next =>
                  have hnext := nested_of_step (hm.withBudget (some L)) hn hstep
                  have hsteps := (steps_of_step (hm.withBudget (some L)) hn hstep).1
                  have := ih hnext
                  simp only
                  omega
              | _ =>
                  simp only
                  omega

/-! ### Two budgets -/

/-- A budget that is no smaller lets a fetch pass that the smaller one lets pass. -/
theorem fetch_withBudget {base : Nat} {exec : Execution}
    (hspent : ∀ limit fetched,
      (m.withBudget (some L)).fetch base exec ≠ (.error (.stepLimit limit), fetched))
    {budget : Option Nat} (hle : ∀ limit, budget = some limit → L ≤ limit) :
    (m.withBudget budget).fetch base exec = (m.withBudget (some L)).fetch base exec := by
  unfold fetch withBudget at *
  simp only at *
  cases hraw : m.program[exec.context.ip]? with
  | none => rfl
  | some opcode =>
      simp only [hraw, Option.any_some, decide_eq_true_eq] at hspent ⊢
      have hlt : ¬L ≤ exec.steps := by
        intro hspends
        rw [if_pos hspends] at hspent
        exact hspent _ _ rfl
      have hany : ¬budget.any (fun limit => decide (limit ≤ exec.steps)) = true := by
        cases budget with
        | none => exact nofun
        | some limit =>
            have := hle limit rfl
            simp only [Option.any_some, decide_eq_true_eq]
            omega
      rw [if_neg hlt, if_neg hany]

/-- A budget that is no smaller does not change a step that the smaller one does not end. -/
theorem step_withBudget (hn : state.Nested m.maxCallDepth)
    (hspent : ¬((m.withBudget (some L)).step state).IsSpent) {budget : Option Nat}
    (hle : ∀ limit, budget = some limit → L ≤ limit) :
    (m.withBudget budget).step state = (m.withBudget (some L)).step state := by
  have hfetch : (m.withBudget budget).fetch state.base state.exec =
      (m.withBudget (some L)).fetch state.base state.exec := by
    refine fetch_withBudget (fun limit fetched hfetch => hspent ?_) hle
    obtain ⟨after, hstep, -⟩ := step_of_fetch_error (m := m.withBudget (some L)) hn hfetch
    exact ⟨after, limit, hstep⟩
  rw [step]
  rw [hfetch]
  rfl

/-- **Runs under two budgets agree** until the smaller one is spent. -/
theorem iterate_withBudget (hm : m.Standard) (hrun : run.Fresh) {n : Nat}
    (hspent : ¬((m.withBudget (some L)).iterate n { exec := run.exec }).IsSpent)
    {budget : Option Nat} (hle : ∀ limit, budget = some limit → L ≤ limit) :
    (m.withBudget budget).iterate n { exec := run.exec } =
      (m.withBudget (some L)).iterate n { exec := run.exec } := by
  induction n with
  | zero => rfl
  | succ n ih =>
      rw [iterate_succ] at hspent
      rw [iterate_succ, iterate_succ]
      cases hprev : (m.withBudget (some L)).iterate n { exec := run.exec } with
      | running before =>
          rw [hprev] at ih hspent
          rw [ih (by rintro ⟨_, _, h⟩; cases h)]
          have hn := Reaches.nested (hm.withBudget (some L)) hrun ⟨n, hprev⟩
          exact step_withBudget hn hspent hle
      | _ =>
          rw [hprev] at ih hspent
          rw [ih hspent]

/-! ### The end of a run -/

end Machine

namespace Run

variable {m : Machine} {run : Run}

theorem Fresh.finish_eq (h : run.Fresh) (m : Machine) :
    run.finish m = run.ofStatus (m.iterate m.fuel { exec := run.exec }) := by
  rw [finish, h.running]

theorem ofStatus_ne_running {status : Status} (h : ∀ state, status ≠ .running state) :
    (run.ofStatus status).state ≠ .running := by
  match status with
  | .running state => exact absurd rfl (h state)
  | .stopped _ .halted | .stopped _ (.returned _) | .stopped _ (.threw .halt)
  | .stopped _ (.threw (.exception _)) | .stopped _ (.threw (.fault _)) | .aborted _ =>
      exact nofun

/-- A run that reports a spent budget stopped with it. -/
theorem status_of_stepLimit {status : Status} {limit : Nat}
    (h : (run.ofStatus status).state = .faulted (.stepLimit limit)) :
    status = .stopped (run.ofStatus status).exec (.threw (.fault (.stepLimit limit))) := by
  match status, h with
  | .stopped _ (.threw (.fault fault)), h =>
      simp only [ofStatus, RunState.faulted.injEq] at h ⊢
      rw [h]

end Run

namespace Machine

variable {m : Machine} {run : Run} {state : MachineState} {L : Nat}

/-- A run that stops with the fault of a spent budget has spent its own. -/
theorem spent_of_iterate (hm : m.Standard) (hrun : run.Fresh) {n limit : Nat} {exec : Execution}
    (h : (m.withBudget (some L)).iterate n { exec := run.exec } =
      .stopped exec (.threw (.fault (.stepLimit limit)))) :
    limit = L ∧ exec.steps = L := by
  obtain ⟨k, -, last, hlast, hstep⟩ := exists_last_step (fun state hstate => by
    rw [h] at hstate
    cases hstate)
  rw [h] at hstep
  have hn := Reaches.nested (hm.withBudget (some L)) hrun ⟨k, hlast⟩
  obtain ⟨hsteps, hbudget⟩ := steps_of_iterate (hm.withBudget (some L)) hrun hlast
  rcases step_stopped (hm.withBudget (some L)) hn hstep with
    ⟨fault, fetched, hfetch, hexit, hkept⟩ | ⟨-, hwithin, -⟩
  · simp only [Exit.threw.injEq, Thrown.fault.injEq] at hexit
    obtain ⟨-, hmax, hspent⟩ := (fetch_eq_error hfetch).2 limit hexit.symm
    obtain rfl : L = limit := Option.some.inj hmax
    have := hbudget L rfl
    exact ⟨rfl, by omega⟩
  · exact absurd rfl (hwithin limit)

/-- What a budget does not end is the same under every budget that is no smaller, from one
step more than the budget on. -/
theorem iterate_eq_of_not_spent (hm : m.Standard) (hrun : run.Fresh) {k n : Nat}
    (hn : L < n) (hk : L < k)
    (hspent : ¬((m.withBudget (some L)).iterate n { exec := run.exec }).IsSpent)
    {budget : Option Nat} (hle : ∀ limit, budget = some limit → L ≤ limit) :
    (m.withBudget budget).iterate k { exec := run.exec } =
      (m.withBudget (some L)).iterate n { exec := run.exec } := by
  have hrunning := iterate_ne_running hm hrun (Nat.lt_succ_self L)
  have hfirst := iterate_of_le hrunning hn
  rw [hfirst] at hspent ⊢
  have hagree := iterate_withBudget hm hrun hspent hle
  have hstays := iterate_of_le (m := m.withBudget budget) (hagree ▸ hrunning) hk
  rw [hstays, hagree]

/-- **A budget is exact and transparent.** A run with a budget ends and invokes no more
handlers than the budget says. If it ends because the budget is spent, it has counted just
that many instructions. If it ends otherwise, so does the run with any greater budget and
without one. Wherever the budget is spent, the run ends, whatever frames are armed. -/
theorem budget_exact_and_transparent (hm : m.Standard) (hrun : run.Fresh) (L : Nat) :
    (run.finish (m.withBudget (some L))).state ≠ .running ∧
    (∀ n, (m.withBudget (some L)).invocations n { exec := run.exec } ≤ L) ∧
    (∀ limit, (run.finish (m.withBudget (some L))).state = .faulted (.stepLimit limit) →
      limit = L ∧ (run.finish (m.withBudget (some L))).exec.steps = L) ∧
    ((∀ limit, (run.finish (m.withBudget (some L))).state ≠ .faulted (.stepLimit limit)) →
      (∀ L' ≥ L, run.finish (m.withBudget (some L')) = run.finish (m.withBudget (some L))) ∧
      run.EndsAs (m.withBudget none) (run.finish (m.withBudget (some L))) ∧
      (L < 2 ^ 64 →
        run.finish (m.withBudget none) = run.finish (m.withBudget (some L)))) ∧
    ∀ state limit exec, (m.withBudget (some L)).Reaches run state →
      (m.withBudget (some L)).fetch state.base state.exec = (.error (.stepLimit limit), exec) →
      ∃ after, (m.withBudget (some L)).step state =
          .stopped after (.threw (.fault (.stepLimit L))) ∧
        after.context = state.exec.context := by
  have hrunning : ∀ {k}, L < k → ∀ state,
      (m.withBudget (some L)).iterate k { exec := run.exec } ≠ .running state :=
    iterate_ne_running hm hrun
  have hfuel : (m.withBudget (some L)).fuel = 2 * L + 1 := rfl
  rw [hrun.finish_eq, hfuel]
  refine ⟨?_, fun n => ?_, fun limit hlimit => ?_, fun hended => ?_, ?_⟩
  · exact Run.ofStatus_ne_running (hrunning (by omega))
  · have hn := Reaches.nested (m := m) hm hrun ⟨0, rfl⟩
    exact (invocations_le hm hn).trans (Nat.sub_le _ _)
  · exact spent_of_iterate hm hrun (Run.status_of_stepLimit hlimit)
  · -- The fuel of either run is more than the steps that the smaller budget allows.
    have hspent : ¬((m.withBudget (some L)).iterate (2 * L + 1) { exec := run.exec }).IsSpent := by
      rintro ⟨exec, limit, hstatus⟩
      exact hended limit (by rw [hstatus]; rfl)
    have hsame : ∀ budget : Option Nat, (∀ limit, budget = some limit → L ≤ limit) →
        ∀ k, L < k → (m.withBudget budget).iterate k { exec := run.exec } =
          (m.withBudget (some L)).iterate (2 * L + 1) { exec := run.exec } :=
      fun _ hle _ hk => iterate_eq_of_not_spent hm hrun (by omega) hk hspent hle
    refine ⟨fun L' hL' => ?_, ⟨?_, L + 1, ?_⟩, fun hL => ?_⟩
    · have hfuel' : (m.withBudget (some L')).fuel = 2 * L' + 1 := rfl
      rw [hrun.finish_eq, hfuel', hsame (some L') (by simpa using hL') _ (by omega)]
    · exact Run.ofStatus_ne_running (hrunning (by omega))
    · rw [hsame none nofun _ (Nat.lt_succ_self L)]
    · have hfuel' : (m.withBudget none).fuel = 2 ^ 64 := rfl
      rw [hrun.finish_eq, hfuel', hsame none nofun _ hL]
  · intro state limit exec hstate hfetch
    have hn := hstate.nested (hm.withBudget (some L)) hrun
    obtain ⟨rfl, hmax, -⟩ := (fetch_eq_error hfetch).2 limit rfl
    obtain rfl : L = limit := Option.some.inj hmax
    obtain ⟨after, hstep, hcontext, -⟩ :=
      step_of_fetch_error (m := m.withBudget (some L)) hn hfetch
    exact ⟨after, hstep, hcontext⟩

/-- A jump to itself. -/
def selfJump : Machine :=
  Reference.machine #[23, 1]

/-- A call that returns, and the end. -/
def callThenHalt : Machine :=
  Reference.machine #[38, 9, 0, 37, 25, 3]

theorem budget_exact_and_transparent_examples :
    ((selfJump.start.finish (selfJump.withBudget (some 3))).state = .faulted (.stepLimit 3) ∧
      (selfJump.start.finish (selfJump.withBudget (some 3))).exec.steps = 3) ∧
    (callThenHalt.start.finish (callThenHalt.withBudget none)).state = .halted := by
  have hspent : (selfJump.start.finish (selfJump.withBudget (some 3))).state =
      .faulted (.stepLimit 3) := by
    cbv
  have hhalted : (callThenHalt.start.finish (callThenHalt.withBudget (some 3))).state =
      .halted := by
    cbv
  obtain ⟨-, -, hexact, -⟩ := budget_exact_and_transparent (m := selfJump)
    (Reference.standard_machine _) (fresh_start _ _ _) 3
  obtain ⟨-, -, -, htransparent, -⟩ := budget_exact_and_transparent (m := callThenHalt)
    (Reference.standard_machine _) (fresh_start _ _ _) 3
  obtain ⟨-, -, hunlimited⟩ := htransparent fun limit hlimit => by
    rw [hhalted] at hlimit
    cases hlimit
  refine ⟨⟨hspent, (hexact 3 hspent).2⟩, ?_⟩
  rw [hunlimited (by decide)]
  exact hhalted

end Machine

end TaggedBytecode
