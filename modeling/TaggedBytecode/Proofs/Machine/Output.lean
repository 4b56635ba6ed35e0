import TaggedBytecode.Proofs.Machine.Active

/-!
# The Output of a Run

The sink and the reported result are the **output** of a run. No instruction of a standard
machine reads it, and none writes it: what an instruction does with one output it does with
every other, so instructions are **blind** to the output. Only the end of an instruction is
reported to the sink. So a run with one output is the run with another, with the events of the
instructions that completed meanwhile sent to its own sink (`Machine.iterate_withOutput`).

Instructions **complete** in the order in which they stop running for good. An instruction that
calls waits for its callee, so it completes behind all instructions of the callee.

## Main definitions

* `Execution.withOutput` — an execution with another output.
* `Progress.Blind`, `HandlerM.Blind` — computations that no output affects.
* `Completion`, `Machine.completing`, `Machine.completions` — the instructions that complete.

## Main results

* `HandlerM.Composed.blind` — composed computations are blind.
* `Machine.step_withOutput`, `Machine.iterate_withOutput` — steps under another output.
-/

namespace TaggedBytecode

/-! ### Executions with another output -/

namespace Execution

/-- The execution with another output. -/
def withOutput (exec : Execution) (sink : Option Sink) (result : Option Val) : Execution :=
  { exec with sink, result }

end Execution

namespace Progress

variable {α β : Type}

/-- The computation with other executions where it stands. -/
def onExec (f : Execution → Execution) : Progress α → Progress α
  | finished reply exec => finished reply (f exec)
  | suspended base exec resume => suspended base (f exec) resume
  | aborted message => aborted message

/-- A computation that does the same whatever the output is. -/
def Unaffected (start : Execution → Progress α) : Prop :=
  ∀ exec sink result, start (exec.withOutput sink result) =
    (start exec).onExec (·.withOutput sink result)

/-- A computation is **blind** if it goes on the same way whatever the output is by then. -/
inductive Blind : Progress α → Prop
  | finished (reply : Except Thrown α) (exec : Execution) : Blind (.finished reply exec)
  | suspended {base : Nat} {exec : Execution}
      {resume : Except Thrown Val → Execution → Progress α} :
      (∀ reply, Unaffected (resume reply)) → (∀ reply exec, Blind (resume reply exec)) →
      Blind (.suspended base exec resume)
  | aborted (message : String) : Blind (.aborted message)

theorem onExec_bind {next : α → Execution → Progress β} (hnext : ∀ a, Unaffected (next a))
    (p : Progress α) (sink : Option Sink) (result : Option Val) :
    (p.onExec (·.withOutput sink result)).bind next =
      (p.bind next).onExec (·.withOutput sink result) := by
  cases p with
  | finished reply exec =>
      cases reply with
      | ok a => exact hnext a exec sink result
      | error thrown => rfl
  | suspended base exec resume => rfl
  | aborted message => rfl

theorem Unaffected.bind {start : Execution → Progress α} {next : α → Execution → Progress β}
    (hstart : Unaffected start) (hnext : ∀ a, Unaffected (next a)) :
    Unaffected fun exec => (start exec).bind next := by
  intro exec sink result
  simp only [hstart exec sink result, onExec_bind hnext]

theorem Blind.bind {p : Progress α} {next : α → Execution → Progress β} (h : p.Blind)
    (hnext : ∀ a, Unaffected (next a)) (hblind : ∀ a exec, (next a exec).Blind) :
    (p.bind next).Blind := by
  induction h with
  | finished reply exec =>
      cases reply with
      | ok a => exact hblind a exec
      | error thrown => exact .finished _ _
  | suspended hresume _ ih => exact .suspended (fun reply => (hresume reply).bind hnext) ih
  | aborted message => exact .aborted message

end Progress

/-! ### Blind handlers -/

namespace HandlerM

open Progress (Unaffected)

variable {α β : Type}

/-- A computation that no output affects, wherever it runs. -/
structure Blind (m : HandlerM α) : Prop where
  unaffected : ∀ setup site, Unaffected (m setup site)
  blind : ∀ setup site exec, (m setup site exec).Blind

/-- A computation that always finishes is blind if no output affects it. -/
theorem blind_of_finished {m : HandlerM α}
    (hfinished : ∀ setup site exec, ∃ reply after, m setup site exec = .finished reply after)
    (h : ∀ setup site, Unaffected (m setup site)) : m.Blind := by
  refine ⟨h, fun setup site exec => ?_⟩
  obtain ⟨reply, after, hfinish⟩ := hfinished setup site exec
  exact hfinish ▸ .finished reply after

theorem Blind.bind {m : HandlerM α} {f : α → HandlerM β} (hm : m.Blind)
    (hf : ∀ a, (f a).Blind) : (m >>= f).Blind where
  unaffected setup site := (hm.unaffected setup site).bind fun a => (hf a).unaffected setup site
  blind setup site exec := (hm.blind setup site exec).bind
    (fun a => (hf a).unaffected setup site) fun a => (hf a).blind setup site

theorem blind_onContext (f : Setup → Context → Except Fault (α × Context)) :
    (onContext f).Blind := by
  refine blind_of_finished (fun setup site exec => ?_) fun setup site exec sink result => ?_
  · rw [onContext]
    split <;> exact ⟨_, _, rfl⟩
  · simp only [onContext, Execution.withOutput]
    split <;> rfl

theorem blind_lookUp (slot : Nat) : (lookUp slot).Blind := by
  refine blind_of_finished (fun setup site exec => ?_) fun setup site exec sink result => ?_
  · rw [lookUp]
    split <;> exact ⟨_, _, rfl⟩
  · simp only [lookUp, Execution.withOutput]
    split <;> rfl

theorem blind_popScope : popScope.Blind := by
  refine blind_of_finished (fun setup site exec => ?_) fun setup site exec sink result => ?_
  · rw [popScope]
    split
    · exact ⟨_, _, rfl⟩
    · split <;> exact ⟨_, _, rfl⟩
  · simp only [popScope]
    by_cases hdepth : exec.context.depth ≤ site.base + 1
    · rw [if_pos hdepth, if_pos (show (exec.withOutput sink result).context.depth ≤ _ from hdepth)]
      rfl
    · rw [if_neg hdepth, if_neg (show ¬(exec.withOutput sink result).context.depth ≤ _ from hdepth),
        show (exec.withOutput sink result).context = exec.context from rfl]
      cases exec.context.pop <;> rfl

theorem blind_callHost (name : String) (args : List Val) : (callHost name args).Blind := by
  refine blind_of_finished (fun setup site exec => ?_) fun setup site exec sink result => ?_
  · rw [callHost]
    obtain ⟨reply, world⟩ := (setup.host.call name args).run.run exec.world
    cases reply <;> exact ⟨_, _, rfl⟩
  · simp only [callHost, Execution.withOutput]
    obtain ⟨reply, world⟩ := (setup.host.call name args).run.run exec.world
    cases reply <;> rfl

theorem blind_call (entry : Nat) (args : List Val) : (call entry args).Blind := by
  constructor
  · intro setup site exec sink result
    simp only [call]
    by_cases hlimit : setup.maxCallDepth ≤ exec.calls
    · rw [if_pos hlimit, if_pos (show _ ≤ (exec.withOutput sink result).calls from hlimit)]
      rfl
    · rw [if_neg hlimit, if_neg (show ¬_ ≤ (exec.withOutput sink result).calls from hlimit),
        show (exec.withOutput sink result).context = exec.context from rfl]
      cases exec.context.pushCall entry <;> rfl
  · intro setup site exec
    rw [call]
    split
    · exact .finished _ _
    · split
      · exact .finished _ _
      · exact .suspended (fun _ _ _ _ => rfl) fun _ _ => .finished _ _

/-- **Composed computations are blind.** Induction on the composition. -/
theorem Composed.blind {m : HandlerM α} (h : m.Composed) : m.Blind := by
  induction h with
  | pure a => exact blind_of_finished (fun _ _ _ => ⟨_, _, rfl⟩) fun _ _ _ _ _ => rfl
  | bind _ _ ihm ihf => exact ihm.bind ihf
  | throw _ => exact blind_of_finished (fun _ _ _ => ⟨_, _, rfl⟩) fun _ _ _ _ _ => rfl
  | abort message => exact ⟨fun _ _ _ _ _ => rfl, fun _ _ _ => .aborted message⟩
  | context => exact blind_of_finished (fun _ _ _ => ⟨_, _, rfl⟩) fun _ _ _ _ _ => rfl
  | constant => exact blind_onContext _
  | lookUp slot => exact blind_lookUp slot
  | write value => exact blind_onContext _
  | readVar => exact blind_of_finished (fun _ _ _ => ⟨_, _, rfl⟩) fun _ _ _ _ _ => rfl
  | jump target => exact blind_onContext _
  | assign slot value => exact blind_onContext fun _ context => .ok ((), context.assign slot value)
  | pushScope handler => exact blind_onContext _
  | popScope => exact blind_popScope
  | clearHandler => exact blind_onContext _
  | takePending => exact blind_onContext _
  | newIdentity => exact blind_of_finished (fun _ _ _ => ⟨_, _, rfl⟩) fun _ _ _ _ _ => rfl
  | callHost name args => exact blind_callHost name args
  | call entry args => exact blind_call entry args

end HandlerM

/-! ### Completions -/

/-- An instruction that stopped running for good, and what it came to. -/
structure Completion where
  instruction : Instruction
  reply : Except Thrown Flow

/-- The report of a completion. -/
def Completion.event (c : Completion) : TraceEvent :=
  c.instruction.event (Machine.outcome c.reply)

/-- The sink after the reports of some completions, in order. -/
def Sink.hear (completions : List Completion) (sink : Sink) : Sink :=
  completions.foldl (fun sink c => sink.emit c.event) sink

namespace Machine

/-- The completion of an instruction, if its computation has finished. -/
def completed (i : Instruction) : Progress Flow → List Completion
  | .finished reply _ => [⟨i, reply⟩]
  | _ => []

/-- The instructions that complete while a turn is carried through the calls around it, from
the innermost call outwards. -/
def carried : Turn → List Suspension → List Completion
  | .leaves exit exec, s :: stack =>
    completed s.instruction (s.resume exit.reply exec) ++
      carried (turn s.instruction (s.resume exit.reply exec)) stack
  | _, _ => []

/-- The instructions that complete in a step, in order. -/
def completing (m : Machine) (state : MachineState) : List Completion :=
  match m.fetch state.base state.exec with
  | (.error fault, exec) => carried (.leaves (.threw (.fault fault)) exec) state.suspended
  | (.ok (i, handler), exec) =>
    completed i (handler m.toSetup i.toSite exec) ++
      carried (turn i (handler m.toSetup i.toSite exec)) state.suspended

/-- The instructions that complete in the next `n` steps, in order. -/
def completions (m : Machine) : (n : Nat) → MachineState → List Completion
  | 0, _ => []
  | n + 1, state =>
    m.completing state ++
    match m.step state with
    | .running next => completions m n next
    | _ => []

end Machine

/-- The state with another output. -/
def MachineState.withOutput (state : MachineState) (sink : Option Sink) (result : Option Val) :
    MachineState :=
  { state with exec := state.exec.withOutput sink result }

/-- The turn with another execution. -/
def Turn.onExec (f : Execution → Execution) : Turn → Turn
  | goesOn exec => goesOn (f exec)
  | waits suspension exec => waits suspension (f exec)
  | leaves exit exec => leaves exit (f exec)
  | aborts message => aborts message

/-- The status with another execution. -/
def Status.onExec (f : Execution → Execution) : Status → Status
  | running state => running { state with exec := f state.exec }
  | stopped exec exit => stopped (f exec) exit
  | aborted message => aborted message

/-! ### Blind states -/

/-- A suspended instruction that goes on the same way whatever the output is. -/
structure Suspension.Blind (s : Suspension) : Prop where
  unaffected : ∀ reply, Progress.Unaffected (s.resume reply)
  blind : ∀ reply exec, (s.resume reply exec).Blind

/-- A turn after which every instruction that waits is blind. -/
def Turn.Blind (turn : Turn) : Prop :=
  ∀ s exec, turn = .waits s exec → s.Blind

/-- A state in which every instruction that waits is blind. -/
def MachineState.Blind (state : MachineState) : Prop :=
  ∀ s ∈ state.suspended, s.Blind

/-- Before the first fetch no instruction waits. -/
theorem MachineState.Blind.first (exec : Execution) : MachineState.Blind { exec } :=
  nofun

namespace Machine

variable {m : Machine} {state : MachineState} {stack : List Suspension}

theorem turn_blind (i : Instruction) {p : Progress Flow} (h : p.Blind) : (turn i p).Blind := by
  intro s exec hwaits
  cases h with
  | finished reply after =>
      simp only [turn] at hwaits
      split at hwaits <;> cases hwaits
  | suspended hunaffected hblind =>
      obtain ⟨rfl, -⟩ := Turn.waits.inj hwaits
      exact ⟨hunaffected, hblind⟩
  | aborted message => cases hwaits

/-- Carrying a turn through blind instructions leads to a blind state, if it leads on. -/
theorem blind_of_carry {t : Turn} {next : MachineState} (ht : t.Blind)
    (hstack : ∀ s ∈ stack, s.Blind) (h : carry t stack = .running next) : next.Blind :=
  forall_suspended_of_carry (fun s hs reply exec => turn_blind s.instruction (hs.blind reply exec))
    ht hstack h

/-! ### Turns -/

theorem settle_withOutput (i : Instruction) (reply : Except Thrown Flow) (exec : Execution)
    (sink : Option Sink) (result : Option Val) :
    settle i reply (exec.withOutput sink result) =
      ((settle i reply exec).1, (settle i reply exec).2.withOutput sink result) := by
  have hrelease : ∀ exec : Execution, release i.base (exec.withOutput sink result) =
      (release i.base exec).withOutput sink result := by
    intro exec
    simp only [release]
    split <;> rfl
  match reply with
  | .ok .continue | .ok .halt | .error .halt | .error (.fault _) => rfl
  | .ok (.return value) => simp only [settle, hrelease]
  | .error (.exception value) =>
      simp only [settle]
      rw [show (exec.withOutput sink result).context = exec.context from rfl]
      obtain ⟨caught | uncaught, context⟩ := exec.context.raise value i.base
      · exact congrArg (Prod.mk _) (hrelease { exec with context })
      · rfl

/-- The turn of an instruction under another output: its completion is reported there. -/
theorem turn_withOutput (i : Instruction) (p : Progress Flow) (sink : Option Sink)
    (result : Option Val) :
    turn i (p.onExec (·.withOutput sink result)) =
      (turn i p).onExec (·.withOutput (sink.map (·.hear (completed i p))) result) := by
  cases p with
  | suspended base exec resume =>
      simp only [turn, Progress.onExec, completed, Turn.onExec, Sink.hear, List.foldl_nil,
        Option.map_id_fun']
      rfl
  | aborted message => rfl
  | finished reply exec =>
      have hreport : report i reply (exec.withOutput sink result) =
          (report i reply exec).withOutput
            (sink.map (·.hear (completed i (.finished reply exec)))) result := rfl
      simp only [turn, Progress.onExec, hreport, settle_withOutput]
      obtain ⟨none | exit, after⟩ := settle i reply (report i reply exec) <;> rfl

theorem hear_append (first rest : List Completion) (sink : Option Sink) :
    sink.map (·.hear (first ++ rest)) = (sink.map (·.hear first)).map (·.hear rest) := by
  cases sink with
  | none => rfl
  | some sink => simp only [Option.map_some, Sink.hear, List.foldl_append]

theorem hear_nil (sink : Option Sink) : sink.map (·.hear []) = sink := by
  cases sink <;> rfl

/-- A turn carried through blind instructions under another output. Induction on the suspended
instructions. -/
theorem carry_withOutput (t : Turn) (hstack : ∀ s ∈ stack, s.Blind) (sink : Option Sink)
    (result : Option Val) :
    carry (t.onExec (·.withOutput sink result)) stack =
      (carry t stack).onExec (·.withOutput (sink.map (·.hear (carried t stack))) result) := by
  induction stack generalizing t sink with
  | nil => cases t <;> simp only [carried, hear_nil] <;> rfl
  | cons s stack ih =>
      cases t with
      | leaves exit exec =>
          obtain ⟨hs, hrest⟩ := List.forall_mem_cons.mp hstack
          have hresume := hs.unaffected exit.reply exec sink result
          rw [Turn.onExec, carry, hresume, turn_withOutput, ih _ hrest, carried, hear_append]
          rfl
      | _ =>
          simp only [carried, hear_nil]
          rfl

/-! ### Steps -/

theorem fetch_withOutput (m : Machine) (base : Nat) (exec : Execution) (sink : Option Sink)
    (result : Option Val) :
    m.fetch base (exec.withOutput sink result) =
      ((m.fetch base exec).1, (m.fetch base exec).2.withOutput sink result) := by
  have hcontext : (exec.withOutput sink result).context = exec.context := rfl
  have hsteps : (exec.withOutput sink result).steps = exec.steps := rfl
  simp only [fetch, hcontext, hsteps]
  cases m.program[exec.context.ip]? with
  | none => rfl
  | some opcode =>
      by_cases hbudget : m.maxSteps.any (· ≤ exec.steps) = true
      · simp only [hbudget, if_true]
      · simp only [hbudget, Bool.false_eq_true, if_false]
        cases m.table.get? opcode <;> rfl

theorem Standard.blind (hm : m.Standard) {i : Instruction} {handler : Handler} {base : Nat}
    {exec begun : Execution} (h : m.fetch base exec = (.ok (i, handler), begun)) :
    HandlerM.Blind handler := by
  obtain ⟨-, -, hentry⟩ := entry_of_fetch h
  exact (hm.composed hentry).blind

/-- **A step under another output** is the step, with its completions reported there. -/
theorem step_withOutput (hm : m.Standard) (hstate : state.Blind) (sink : Option Sink)
    (result : Option Val) :
    m.step (state.withOutput sink result) =
      (m.step state).onExec
        (·.withOutput (sink.map (·.hear (m.completing state))) result) := by
  have hbase : (state.withOutput sink result).base = state.base := rfl
  have hfetched := m.fetch_withOutput state.base state.exec sink result
  rw [step, step, completing, hbase]
  simp only [MachineState.withOutput, hfetched]
  cases hfetch : m.fetch state.base state.exec with
  | mk started begun =>
      cases started with
      | error fault =>
          exact carry_withOutput (.leaves (.threw (.fault fault)) begun) hstate sink result
      | ok started =>
          obtain ⟨i, handler⟩ := started
          have hhandler := (hm.blind hfetch).unaffected m.toSetup i.toSite begun sink result
          simp only [hhandler, turn_withOutput, carry_withOutput _ hstate, hear_append]

/-- Steps lead from blind states to blind states. -/
theorem blind_of_step (hm : m.Standard) (hstate : state.Blind) {next : MachineState}
    (h : m.step state = .running next) : next.Blind := by
  rw [step] at h
  split at h
  · exact blind_of_carry (fun _ _ hwaits => by cases hwaits) hstate h
  · rename_i i handler begun hfetch
    exact blind_of_carry (turn_blind i ((hm.blind hfetch).blind _ _ _)) hstate h

/-- **Steps under another output** are the steps, with their completions reported there.
Induction on the number of steps. -/
theorem iterate_withOutput (hm : m.Standard) (hstate : state.Blind) (n : Nat)
    (sink : Option Sink) (result : Option Val) :
    m.iterate n (state.withOutput sink result) =
      (m.iterate n state).onExec
        (·.withOutput (sink.map (·.hear (m.completions n state))) result) := by
  induction n generalizing state sink with
  | zero =>
      rw [completions, hear_nil]
      rfl
  | succ n ih =>
      rw [iterate, iterate, completions, step_withOutput hm hstate, hear_append]
      cases hstep : m.step state with
      | running next => exact ih (blind_of_step hm hstate hstep) _
      | stopped exec exit =>
          simp only [hear_nil]
          rfl
      | aborted message => rfl

/-- What steps add to the output of a run: the reports of the instructions that complete. The
result is not theirs to set. -/
theorem iterate_eq_withOutput (hm : m.Standard) (hstate : state.Blind) (n : Nat) :
    m.iterate n state =
      (m.iterate n state).onExec
        (·.withOutput (state.exec.sink.map (·.hear (m.completions n state)))
          state.exec.result) :=
  iterate_withOutput hm hstate n state.exec.sink state.exec.result

end Machine

end TaggedBytecode
