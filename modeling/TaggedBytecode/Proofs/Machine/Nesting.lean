import Mathlib.Logic.Relation
import TaggedBytecode.Proofs.Machine.Active

/-!
# Nested Calls

What one step of a standard machine can do to the frames and to the suspended instructions.
Seen from these alone, a step is a sequence of **moves**, each of them confined work or the
leaving of a call, after which at most one call is **entered** (`Machine.step_running`).
Whatever moves and entering preserve, every state of a run has.

## Main definitions

* `MachineState.Nested` — the suspended instructions, the frames and the count of open calls
  fit each other.
* `Move`, `Enter` — the moves of a step, and the entering of a call.
* `Run.Fresh` — a run before its first fetch; `Machine.Reaches` — the states of a run.

## Main results

* `Machine.Active.lawful` — how an active instruction came about and what it does.
* `Machine.step_running`, `Machine.step_stopped` — what a step can do.
* `Machine.Reaches.induction` — what moves and entering preserve holds in every state of a run.
-/

namespace TaggedBytecode

open Relation (ReflTransGen)

/-! ### Suspended instructions -/

/-- A suspended instruction fits the instructions that are suspended below it: it works on the
frames above theirs, passes on what its callee fails with, and goes on lawfully with a value. -/
structure Suspension.Fits (limit : Nat) (stack : List Suspension) (s : Suspension) : Prop where
  instruction_base : s.instruction.base = callBase stack
  base_lt : callBase stack < s.base
  resume : ∃ next, s.resume = Progress.afterCall next ∧
    ∀ value exec, callBase stack < exec.context.depth →
      (next value exec).Lawful limit (callBase stack) exec

theorem Suspension.Fits.error {limit : Nat} {stack : List Suspension} {s : Suspension}
    (h : s.Fits limit stack) (thrown : Thrown) (exec : Execution) :
    s.resume (.error thrown) exec = .finished (.error thrown) exec.closeCall := by
  obtain ⟨next, hresume, -⟩ := h.resume
  rw [hresume]
  rfl

theorem Suspension.Fits.value {limit : Nat} {stack : List Suspension} {s : Suspension}
    (h : s.Fits limit stack) (v : Val) {exec : Execution}
    (hexec : callBase stack < exec.context.depth) :
    (s.resume (.ok v) exec).Lawful limit (callBase stack) exec.closeCall := by
  obtain ⟨next, hresume, hvalue⟩ := h.resume
  rw [hresume]
  exact hvalue v exec.closeCall hexec

/-- Suspended instructions of which each fits those below it. -/
inductive Stacked (limit : Nat) : List Suspension → Prop
  | nil : Stacked limit []
  | cons {s : Suspension} {stack : List Suspension} :
      s.Fits limit stack → Stacked limit stack → Stacked limit (s :: stack)

theorem Stacked.head {limit : Nat} {s : Suspension} {stack : List Suspension}
    (h : Stacked limit (s :: stack)) : s.Fits limit stack := by
  cases h with
  | cons hs _ => exact hs

theorem Stacked.tail {limit : Nat} {s : Suspension} {stack : List Suspension}
    (h : Stacked limit (s :: stack)) : Stacked limit stack := by
  cases h with
  | cons _ hstack => exact hstack

theorem Stacked.callBase_le {limit : Nat} {stack rest : List Suspension}
    (h : Stacked limit stack) (hrest : rest <:+ stack) : callBase rest ≤ callBase stack := by
  induction h with
  | nil => rw [List.suffix_nil.mp hrest]
  | cons hs _ ih =>
      rcases List.suffix_cons_iff.mp hrest with rfl | htail
      · exact Nat.le_refl _
      · exact Nat.le_trans (ih htail) (Nat.le_of_lt hs.base_lt)

theorem Stacked.of_suffix {limit : Nat} {stack rest : List Suspension}
    (h : Stacked limit stack) (hrest : rest <:+ stack) : Stacked limit rest := by
  induction h with
  | nil => exact List.suffix_nil.mp hrest ▸ .nil
  | cons hs hstack ih =>
      rcases List.suffix_cons_iff.mp hrest with rfl | htail
      · exact .cons hs hstack
      · exact ih htail

/-- The suspended instructions, the frames and the count of open calls fit each other. -/
structure MachineState.Nested (limit : Nat) (state : MachineState) : Prop where
  stacked : Stacked limit state.suspended
  base_lt : callBase state.suspended < state.exec.context.depth
  calls : state.exec.calls = state.suspended.length
  calls_le : state.exec.calls ≤ limit

/-! ### Moves -/

/-- What a step does to frames and suspended instructions, one thing at a time: work in the
innermost call, or the leaving of that call. -/
inductive Move : MachineState → MachineState → Prop
  | work {a b : Execution} {stack : List Suspension} :
      a.Confined (callBase stack) b → Move ⟨a, stack⟩ ⟨b, stack⟩
  | leave {a : Execution} {s : Suspension} {stack : List Suspension} :
      Move ⟨a, s :: stack⟩ ⟨(Machine.release s.base a).closeCall, stack⟩

/-- The entering of a call. -/
inductive Enter (limit : Nat) : MachineState → MachineState → Prop
  | call {before : Execution} {s : Suspension} {stack : List Suspension} {entry : Nat}
      {args : List Val} {opened : Context} :
      before.calls < limit → before.context.pushCall entry = .ok opened →
      s.base = before.context.depth → s.Fits limit stack →
      Enter limit ⟨before, stack⟩ ⟨before.enterCall opened args, s :: stack⟩

/-- Releasing the frames of a call leaves those of its callers. -/
theorem Machine.context_release {base : Nat} (h : 0 < base) (exec : Execution) :
    (Machine.release base exec).context = (exec.context.truncate base).2 := by
  rw [Machine.release, if_pos h]

theorem Machine.steps_release (base : Nat) (exec : Execution) :
    (Machine.release base exec).steps = exec.steps := by
  rw [Machine.release]
  split <;> rfl

theorem Machine.calls_release (base : Nat) (exec : Execution) :
    (Machine.release base exec).calls = exec.calls := by
  rw [Machine.release]
  split <;> rfl

/-- The frames that remain when a call is left. -/
theorem Suspension.Fits.context_closed {limit : Nat} {s : Suspension} {stack : List Suspension}
    (h : s.Fits limit stack) (exec : Execution) :
    (Machine.release s.base exec).closeCall.context = (exec.context.truncate s.base).2 :=
  Machine.context_release (Nat.lt_of_le_of_lt (Nat.zero_le _) h.base_lt) exec

theorem Suspension.Fits.depth_closed {limit : Nat} {s : Suspension} {stack : List Suspension}
    (h : s.Fits limit stack) {exec : Execution} (hexec : s.base < exec.context.depth) :
    (Machine.release s.base exec).closeCall.context.depth = s.base := by
  have := h.base_lt
  rw [h.context_closed, Context.depth_truncate]
  omega

theorem Move.nested {limit : Nat} {a b : MachineState} (h : Move a b) (ha : a.Nested limit) :
    b.Nested limit := by
  cases h with
  | work hab =>
      exact ⟨ha.stacked, hab.context.base_lt, hab.calls.trans ha.calls,
        hab.calls ▸ ha.calls_le⟩
  | @leave a s stack =>
      have hcalls : (Machine.release s.base a).closeCall.calls = stack.length := by
        have := ha.calls
        simp only [List.length_cons] at this
        simp only [Execution.closeCall, Machine.calls_release]
        omega
      refine ⟨ha.stacked.tail, ?_, hcalls, ?_⟩
      · simp only [ha.stacked.head.depth_closed ha.base_lt]
        exact ha.stacked.head.base_lt
      · have := ha.calls
        have := ha.calls_le
        simp only [List.length_cons] at *
        omega

theorem Enter.nested {limit : Nat} {a b : MachineState} (h : Enter limit a b)
    (ha : a.Nested limit) : b.Nested limit := by
  cases h with
  | @call before s stack entry args opened hlimit hopen hbase hfits =>
      obtain ⟨f, -, -, hpush⟩ := Context.entered_eq_push hopen args
      refine ⟨.cons hfits ha.stacked, ?_, ?_, hlimit⟩
      · simp only [callBase, Execution.enterCall, hpush, Context.depth_push, hbase]
        exact Nat.lt_succ_self _
      · simp only [Execution.enterCall, List.length_cons]
        exact congrArg (· + 1) ha.calls

theorem Move.steps {a b : MachineState} (h : Move a b) : b.exec.steps = a.exec.steps := by
  cases h with
  | work hab => exact hab.steps
  | leave => exact Machine.steps_release _ _

/-- The moves of a step keep to the frames from the base of the call they end in. -/
theorem Move.confined {limit : Nat} {context : Context} {a b : MachineState} (h : Move a b)
    (ha : a.Nested limit) (hcontext : context.Confined (callBase a.suspended) a.exec.context) :
    context.Confined (callBase b.suspended) b.exec.context := by
  cases h with
  | work hab => exact hcontext.trans hab.context
  | @leave a s stack =>
      have hfits := ha.stacked.head
      simp only [callBase] at hcontext
      rw [hfits.context_closed]
      exact (hcontext.mono (Nat.le_of_lt hfits.base_lt)).truncate hfits.base_lt

theorem Moves.nested {limit : Nat} {a b : MachineState} (h : ReflTransGen Move a b)
    (ha : a.Nested limit) : b.Nested limit := by
  induction h with
  | refl => exact ha
  | tail _ hmove ih => exact hmove.nested ih

theorem Moves.steps {a b : MachineState} (h : ReflTransGen Move a b) :
    b.exec.steps = a.exec.steps := by
  induction h with
  | refl => rfl
  | tail _ hmove ih => exact hmove.steps.trans ih

theorem Moves.confined {limit : Nat} {context : Context} {a b : MachineState}
    (h : ReflTransGen Move a b) (ha : a.Nested limit)
    (hcontext : context.Confined (callBase a.suspended) a.exec.context) :
    context.Confined (callBase b.suspended) b.exec.context := by
  induction h with
  | refl => exact hcontext
  | tail hmoves hmove ih => exact hmove.confined (Moves.nested hmoves ha) ih

theorem MachineState.Nested.begun {limit : Nat} {state : MachineState}
    (h : state.Nested limit) : state.begun.Nested limit :=
  ⟨h.stacked, h.base_lt, h.calls, h.calls_le⟩

/-- Fetching an instruction moves the current frame's instruction pointer and nothing else. -/
theorem MachineState.Nested.confined_begun {limit : Nat} {state : MachineState}
    (h : state.Nested limit) :
    state.exec.context.Confined (callBase state.suspended) state.begun.exec.context :=
  Context.confined_setIp h.base_lt _

/-! ### Turns -/

namespace Exit

/-- Whether the frames of a call are released when it is left so. -/
def releases : Exit → Bool
  | returned _ | threw (.exception _) => true
  | _ => false

/-- The exits that no caller can stop. -/
def Final : Exit → Prop
  | halted | threw (.fault _) => True
  | _ => False

/-- The exits other than by the fault of a spent budget. -/
def WithinBudget (exit : Exit) : Prop :=
  ∀ limit, exit ≠ threw (.fault (.stepLimit limit))

end Exit

/-- What a lawful instruction makes of its call, above some suspended instructions. -/
inductive Turn.Lawful (limit : Nat) (stack : List Suspension) (a : Execution) : Turn → Prop
  | goesOn {b : Execution} : a.Confined (callBase stack) b → Lawful limit stack a (.goesOn b)
  | waits {s : Suspension} {before next : Execution} : a.Confined (callBase stack) before →
      Enter limit ⟨before, stack⟩ ⟨next, s :: stack⟩ → Lawful limit stack a (.waits s next)
  | leaves {exit : Exit} {b : Execution} : exit.releases = true →
      a.Confined (callBase stack) b →
      Lawful limit stack a (.leaves exit (Machine.release (callBase stack) b))
  | ends {exit : Exit} {b : Execution} : exit.Final → exit.WithinBudget →
      a.Confined (callBase stack) b → Lawful limit stack a (.leaves exit b)
  | aborts {message : String} : Lawful limit stack a (.aborts message)

namespace Machine

variable {m : Machine} {state : MachineState} {i : Instruction} {p : Progress Flow}
  {stack : List Suspension} {limit : Nat} {a : Execution}

/-- Reporting an instruction to the sink is no work on the frames. -/
theorem confined_report {base : Nat} {b : Execution} (h : a.Confined base b)
    (i : Instruction) (reply : Except Thrown Flow) : a.Confined base (report i reply b) :=
  ⟨h.context, h.steps, h.calls⟩

theorem turn_lawful (hi : i.base = callBase stack) (h : p.Lawful limit (callBase stack) a) :
    (turn i p).Lawful limit stack a := by
  cases h with
  | aborted => exact .aborts
  | suspended hbefore hlimit hopen hvalue =>
      have hfits := hbefore.context.base_lt
      exact .waits hbefore (.call hlimit hopen rfl ⟨hi, hfits, _, rfl, hvalue⟩)
  | @finished _ b reply hreply hab =>
      have hreport := confined_report hab i reply
      rw [turn]
      match reply, hreply with
      | .ok .continue, _ => exact .goesOn hreport
      | .ok .halt, _ => exact .ends trivial (fun _ h => by cases h) hreport
      | .ok (.return value), _ =>
          simp only [settle, hi]
          exact .leaves rfl hreport
      | .error (.fault fault), hfault =>
          refine .ends trivial (fun spent h => ?_) hreport
          injection h with h
          rw [h] at hfault
          exact hfault
      | .error (.exception value), _ =>
          simp only [settle, hi]
          have hraise := Context.confined_raise hreport.context.base_lt value
          cases hr : (report i (.error (.exception value)) b).context.raise value
            (callBase stack) with
          | mk result context =>
              rw [hr] at hraise
              have hcontext := hreport.context.trans hraise
              cases result with
              | ok recovered => exact .goesOn ⟨hcontext, hreport.steps, hreport.calls⟩
              | error uncaught =>
                  exact .leaves rfl ⟨hcontext, hreport.steps, hreport.calls⟩

/-- An instruction resumed with an exit that no caller can stop leaves its own call so. -/
theorem turn_resume_final {s : Suspension} (hs : s.Fits limit stack) {exit : Exit}
    (hexit : exit.Final) (exec : Execution) :
    ∃ after, turn s.instruction (s.resume exit.reply exec) = .leaves exit after ∧
      after.context = exec.context ∧ after.steps = exec.steps := by
  match exit, hexit with
  | .halted, _ =>
      simp only [Exit.reply, hs.error]
      exact ⟨_, rfl, rfl, rfl⟩
  | .threw (.fault fault), _ =>
      simp only [Exit.reply, hs.error]
      exact ⟨_, rfl, rfl, rfl⟩

/-- An exit that no caller can stop ends the run. Induction on the suspended instructions. -/
theorem carry_final (hstack : Stacked limit stack) {exit : Exit} (hexit : exit.Final)
    (exec : Execution) :
    ∃ after, carry (.leaves exit exec) stack = .stopped after exit ∧
      after.context = exec.context ∧ after.steps = exec.steps := by
  induction hstack generalizing exec with
  | nil => exact ⟨exec, rfl, rfl, rfl⟩
  | cons hs _ ih =>
      obtain ⟨resumed, hturn, hcontext, hsteps⟩ := turn_resume_final hs hexit exec
      obtain ⟨after, hcarry, hcontext', hsteps'⟩ := ih resumed
      refine ⟨after, ?_, hcontext'.trans hcontext, hsteps'.trans hsteps⟩
      rw [carry, hturn, hcarry]

/-! ### Active instructions -/

/-- **How an active instruction came about and what it does.** Either moves led from the fetch
to where it began, and it is lawful from there, or it passes on an exit that no caller can
stop. -/
theorem Active.lawful (hm : m.Standard) (hn : state.Nested m.maxCallDepth)
    (h : m.Active state i p stack) :
    i.base = callBase stack ∧
      ((∃ a, ReflTransGen Move state.begun ⟨a, stack⟩ ∧
          p.Lawful m.maxCallDepth (callBase stack) a) ∨
        ∃ exit exec, turn i p = .leaves exit exec ∧ exit.Final ∧ exit.WithinBudget ∧
          exec.steps = state.begun.exec.steps) := by
  induction h with
  | started hfetch =>
      obtain ⟨rfl, hbase, -, opcode, entry, hentry, rfl⟩ := fetch_eq_ok hfetch
      refine ⟨hbase, .inl ⟨_, .refl, ?_⟩⟩
      have hlt := hn.begun.base_lt
      exact hbase ▸ (hm.composed hentry).lawful m.toSetup _ _ (hbase ▸ hlt)
  | @resumed i p s stack exit exec hactive hturn ih =>
      have hfits := (hn.stacked.of_suffix hactive.suffix).head
      have final : exit.Final → exit.WithinBudget → exec.steps = state.begun.exec.steps →
          ∃ exit' after, turn s.instruction (s.resume exit.reply exec) = .leaves exit' after ∧
            exit'.Final ∧ exit'.WithinBudget ∧ after.steps = state.begun.exec.steps := by
        intro hfinal hbudget hsteps
        obtain ⟨after, hresume, -, hsteps'⟩ := turn_resume_final hfits hfinal exec
        exact ⟨exit, after, hresume, hfinal, hbudget, hsteps'.trans hsteps⟩
      refine ⟨hfits.instruction_base, ?_⟩
      obtain ⟨hbase, ⟨a, hmoves, hlawful⟩ | ⟨exit', exec', hturn', hfinal, hbudget, hsteps⟩⟩ := ih
      · have hnested := Moves.nested hmoves hn.begun
        have hlawful' := turn_lawful hbase hlawful
        rw [hturn] at hlawful'
        cases hlawful' with
        | ends hfinal hbudget hab =>
            exact .inr (final hfinal hbudget (hab.steps.trans (Moves.steps hmoves)))
        | @leaves _ b hreleases hab =>
            -- The caller goes on with its own frames, and its first act closes the call.
            have hwork : Move ⟨a, s :: stack⟩ ⟨b, s :: stack⟩ := .work hab
            have hdepth : (release s.base b).context.depth = s.base :=
              hfits.depth_closed (hwork.nested hnested).base_lt
            have hlt : callBase stack < (release s.base b).context.depth := by
              rw [hdepth]
              exact hfits.base_lt
            refine .inl ⟨_, (hmoves.tail hwork).tail .leave, ?_⟩
            match exit, hreleases with
            | .returned value, _ => exact hfits.value value hlt
            | .threw (.exception value), _ =>
                simp only [Exit.reply, hfits.error]
                exact .finished trivial (.refl hlt)
      · rw [hturn, Turn.leaves.injEq] at hturn'
        obtain ⟨rfl, rfl⟩ := hturn'
        exact .inr (final hfinal hbudget hsteps)

/-! ### Steps -/

/-- A step whose fetch fails ends the run with the fault. -/
theorem step_of_fetch_error (hn : state.Nested m.maxCallDepth) {fault : Fault}
    {exec : Execution} (h : m.fetch state.base state.exec = (.error fault, exec)) :
    ∃ after, m.step state = .stopped after (.threw (.fault fault)) ∧
      after.context = exec.context ∧ after.steps = exec.steps := by
  have hfinal : (Exit.threw (.fault fault)).Final := trivial
  rw [step, h]
  exact carry_final hn.stacked hfinal exec

/-- An instruction that finishes with the order to continue leads to the next fetch. -/
theorem step_of_finished {i : Instruction} {handler : Handler} {begun after : Execution}
    (hfetch : m.fetch state.base state.exec = (.ok (i, handler), begun))
    (hfinished : handler m.toSetup i.toSite begun = .finished (.ok .continue) after) :
    m.step state = .running ⟨report i (.ok .continue) after, state.suspended⟩ := by
  rw [step, hfetch]
  simp only [hfinished, turn, settle, carry]

/-- The alternatives of a step: its fetch fails, or some active instruction decides it. -/
theorem exists_decides (m : Machine) (state : MachineState) :
    (∃ fault exec, m.fetch state.base state.exec = (.error fault, exec)) ∨
      ((∀ limit, m.maxSteps = some limit → state.exec.steps < limit) ∧
        ∃ i p stack, m.Active state i p stack ∧ Decides i p stack (m.step state)) := by
  cases hfetch : m.fetch state.base state.exec with
  | mk result exec =>
      cases result with
      | error fault => exact .inl ⟨fault, exec, rfl⟩
      | ok started =>
          have hactive : m.Active state started.1 _ state.suspended := .started hfetch
          exact .inr ⟨(fetch_eq_ok hfetch).2.2.1, hactive.exists_decides⟩

/-- **What a step that does not end the run does**: it starts an instruction within the
budget, and after moves to the last active instruction it enters at most one call. -/
theorem step_running (hm : m.Standard) (hn : state.Nested m.maxCallDepth)
    {next : MachineState} (h : m.step state = .running next) :
    (∀ limit, m.maxSteps = some limit → state.exec.steps < limit) ∧
      ∃ mid i p, m.Active state i p mid.suspended ∧ ReflTransGen Move state.begun mid ∧
        (next = mid ∨ Enter m.maxCallDepth mid next) := by
  rcases m.exists_decides state with ⟨fault, exec, hfetch⟩ | ⟨hbudget, i, p, stack, hactive, hd⟩
  · obtain ⟨after, hstep, -⟩ := step_of_fetch_error hn hfetch
    rw [hstep] at h
    cases h
  · refine ⟨hbudget, ?_⟩
    rw [h] at hd
    obtain ⟨hbase, ⟨a, hmoves, hlawful⟩ | ⟨exit, exec, hleaves, -⟩⟩ := hactive.lawful hm hn
    · have hturn := turn_lawful hbase hlawful
      cases hd with
      | goesOn hgoes =>
          rw [hgoes] at hturn
          cases hturn with
          | goesOn hab => exact ⟨_, i, p, hactive, hmoves.tail (.work hab), .inl rfl⟩
      | waits hwaits =>
          rw [hwaits] at hturn
          cases hturn with
          | waits hbefore henter =>
              exact ⟨_, i, p, hactive, hmoves.tail (.work hbefore), .inr henter⟩
    · cases hd with
      | goesOn hgoes => rw [hgoes] at hleaves; cases hleaves
      | waits hwaits => rw [hwaits] at hleaves; cases hleaves

/-- What a step that ends the run does: its fetch failed, or an instruction of the root left
within the budget. -/
theorem step_stopped (hm : m.Standard) (hn : state.Nested m.maxCallDepth) {exec : Execution}
    {exit : Exit} (h : m.step state = .stopped exec exit) :
    (∃ fault fetched, m.fetch state.base state.exec = (.error fault, fetched) ∧
        exit = .threw (.fault fault) ∧ exec.steps = state.exec.steps) ∨
      ((∀ limit, m.maxSteps = some limit → state.exec.steps < limit) ∧
        exit.WithinBudget ∧ exec.steps = state.exec.steps + 1) := by
  rcases m.exists_decides state with ⟨fault, fetched, hfetch⟩ | ⟨hbudget, i, p, stack, hactive, hd⟩
  · obtain ⟨after, hstep, -, hsteps⟩ := step_of_fetch_error hn hfetch
    rw [hstep] at h
    obtain ⟨rfl, rfl⟩ := Status.stopped.inj h
    exact .inl ⟨fault, fetched, hfetch, rfl, hsteps.trans (fetch_eq_error hfetch).1⟩
  · refine .inr ⟨hbudget, ?_⟩
    rw [h] at hd
    cases hd with
    | stops hstack hleaves =>
        obtain ⟨hbase, ⟨a, hmoves, hlawful⟩ | ⟨exit', exec', hleaves', -, hwithin, hsteps⟩⟩ :=
          hactive.lawful hm hn
        · have hturn := turn_lawful hbase hlawful
          rw [hleaves] at hturn
          cases hturn with
          | ends _ hwithin hab => exact ⟨hwithin, hab.steps.trans (Moves.steps hmoves)⟩
          | leaves hreleases hab =>
              refine ⟨fun limit hlimit => ?_, ?_⟩
              · rw [hlimit] at hreleases
                cases hreleases
              · rw [steps_release]
                exact hab.steps.trans (Moves.steps hmoves)
        · rw [hleaves, Turn.leaves.injEq] at hleaves'
          obtain ⟨rfl, rfl⟩ := hleaves'
          exact ⟨hwithin, hsteps⟩

theorem nested_of_step (hm : m.Standard) (hn : state.Nested m.maxCallDepth)
    {next : MachineState} (h : m.step state = .running next) : next.Nested m.maxCallDepth := by
  obtain ⟨-, mid, -, -, -, hmoves, hnext⟩ := step_running hm hn h
  have hmid := Moves.nested hmoves hn.begun
  rcases hnext with rfl | henter
  · exact hmid
  · exact henter.nested hmid

end Machine

/-! ### Runs -/

/-- A run before its first fetch. What the frames hold is free, so that a host may prepare
variables and handlers. -/
structure Run.Fresh (run : Run) : Prop where
  running : run.state = .running
  steps : run.exec.steps = 0
  calls : run.exec.calls = 0
  linked : run.exec.context.Linked

theorem Machine.fresh_start (m : Machine) (world : World) (sink : Option Sink) :
    (m.start world sink).Fresh :=
  ⟨rfl, rfl, rfl, Context.linked_start _ _⟩

/-- The states at the fetches of a run. -/
def Machine.Reaches (m : Machine) (run : Run) (state : MachineState) : Prop :=
  ∃ n, m.iterate n { exec := run.exec } = .running state

/-- Some number of steps takes a run to its end. -/
def Run.EndsAs (m : Machine) (run after : Run) : Prop :=
  after.state ≠ .running ∧ ∃ n, run.ofStatus (m.iterate n { exec := run.exec }) = after

namespace Machine

variable {m : Machine} {run : Run} {state : MachineState}

theorem iterate_succ (m : Machine) (n : Nat) (first : MachineState) :
    m.iterate (n + 1) first =
      match m.iterate n first with
      | .running state => m.step state
      | status => status := by
  induction n generalizing first with
  | zero =>
      simp only [iterate]
      cases m.step first <;> rfl
  | succ n ih =>
      rw [iterate]
      conv_rhs => rw [iterate]
      cases m.step first with
      | running next => exact ih next
      | _ => rfl

theorem iterate_succ_of_running {n : Nat} {first : MachineState}
    (h : m.iterate n first = .running state) : m.iterate (n + 1) first = m.step state := by
  rw [iterate_succ, h]

/-- A step leads from one fetch of a run to the next. -/
theorem Reaches.next (h : m.Reaches run state) {next : MachineState}
    (hstep : m.step state = .running next) : m.Reaches run next := by
  obtain ⟨n, hn⟩ := h
  exact ⟨n + 1, (iterate_succ_of_running hn).trans hstep⟩

/-- What holds at the first fetch and survives steps holds at every fetch. -/
theorem Reaches.induction {P : MachineState → Prop} (h : m.Reaches run state)
    (hfirst : P { exec := run.exec })
    (hstep : ∀ a b, P a → m.step a = .running b → P b) : P state := by
  obtain ⟨n, hn⟩ := h
  induction n generalizing state with
  | zero =>
      simp only [iterate, Status.running.injEq] at hn
      exact hn ▸ hfirst
  | succ n ih =>
      rw [iterate_succ] at hn
      cases hprev : m.iterate n { exec := run.exec } with
      | running before =>
          rw [hprev] at hn
          exact hstep before state (ih hprev) hn
      | _ =>
          rw [hprev] at hn
          cases hn

/-- At every fetch of a run the suspended instructions, the frames and the count of open calls
fit each other. -/
theorem Reaches.nested (hm : m.Standard) (hrun : run.Fresh) (h : m.Reaches run state) :
    state.Nested m.maxCallDepth := by
  refine h.induction ⟨.nil, Nat.succ_pos _, hrun.calls, ?_⟩ fun a b ha hstep => ?_
  · rw [hrun.calls]
    exact Nat.zero_le _
  · exact nested_of_step hm ha hstep

/-- **What fetching, moves and entering preserve holds at every fetch of a run.** -/
theorem Reaches.preserved {P : MachineState → Prop} (hm : m.Standard) (hrun : run.Fresh)
    (h : m.Reaches run state) (hfirst : P { exec := run.exec })
    (hbegun : ∀ a, a.Nested m.maxCallDepth → P a → P a.begun)
    (hmove : ∀ a b, a.Nested m.maxCallDepth → P a → Move a b → P b)
    (henter : ∀ a b, a.Nested m.maxCallDepth → P a → Enter m.maxCallDepth a b → P b) :
    P state := by
  refine (h.induction (P := fun a => a.Nested m.maxCallDepth ∧ P a) ?_ ?_).2
  · exact ⟨Reaches.nested hm hrun ⟨0, rfl⟩, hfirst⟩
  · rintro a b ⟨hn, ha⟩ hstep
    refine ⟨nested_of_step hm hn hstep, ?_⟩
    have moves : ∀ c, ReflTransGen Move a.begun c → P c := by
      intro c hmoves
      induction hmoves with
      | refl => exact hbegun a hn ha
      | tail hmoves hlast ih => exact hmove _ _ (Moves.nested hmoves hn.begun) ih hlast
    obtain ⟨-, mid, -, -, -, hmoves, hnext⟩ := step_running hm hn hstep
    rcases hnext with rfl | hentered
    · exact moves _ hmoves
    · exact henter mid b (Moves.nested hmoves hn.begun) (moves mid hmoves) hentered

end Machine

end TaggedBytecode
