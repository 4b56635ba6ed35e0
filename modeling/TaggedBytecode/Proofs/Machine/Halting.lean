import TaggedBytecode.Proofs.Machine.Budget
import TaggedBytecode.Proofs.Machine.Output

/-!
# Halting

The order to **halt** ends the whole run, however deep in calls it is given. It goes from call
to call outwards: a caller that gets it in place of a value passes it on, reports that it
halted and does nothing else. No frame is released on the way and no armed frame is looked for,
so the run ends with the frames that the instruction found.

## Main results

* `Machine.carry_halted` — the order to halt carried through the suspended instructions.
* `Machine.step_of_halt` — the step of an instruction that halts.
* `Machine.halt_freezes_run` — a halt at any depth ends the run and changes no frame.
-/

namespace TaggedBytecode

namespace Reference

/-- The row of the instruction that halts. -/
theorem row_halt {r : OpcodeRow} (h : r ∈ opcodes) (hname : r.info.name = "HALT") :
    r.handler = halt := by
  revert r
  simp [opcodes, row]

end Reference

/-- How suspended instructions complete when the run is halted inside their calls. -/
def Suspension.halts (stack : List Suspension) : List Completion :=
  stack.map fun s => ⟨s.instruction, .error .halt⟩

/-- A listener keeps the events that it hears, in order. -/
theorem Sink.hear_listener (completions : List Completion) (heard : Array TraceEvent) :
    Sink.hear completions (.listener heard) =
      .listener (heard ++ (completions.map Completion.event).toArray) := by
  induction completions generalizing heard with
  | nil => simp [hear]
  | cons c completions ih =>
      have := ih (heard.push c.event)
      simp only [hear, List.foldl_cons, emit] at this ⊢
      simp [this]

namespace Machine

variable {m : Machine} {run : Run} {state : MachineState} {i : Instruction} {handler : Handler}
  {begun : Execution} {stack : List Suspension} {limit : Nat}

/-- **The order to halt, carried through the suspended instructions**, closes their calls and
makes them report that they halted, the innermost first. Induction on the suspended
instructions. -/
theorem carry_halted (hstack : Stacked limit stack) (exec : Execution) :
    carry (.leaves .halted exec) stack =
      .stopped
        { exec with
          calls := exec.calls - stack.length
          sink := exec.sink.map (·.hear (Suspension.halts stack)) }
        .halted := by
  induction hstack generalizing exec with
  | nil =>
      simp only [carry, Suspension.halts, List.map_nil, hear_nil, List.length_nil, Nat.sub_zero]
  | @cons s stack hs _ ih =>
      have hturn : turn s.instruction (s.resume (.error .halt) exec) =
          .leaves .halted (report s.instruction (.error .halt) exec.closeCall) := by
        rw [hs.error]
        rfl
      have hevents : Suspension.halts (s :: stack) =
          [⟨s.instruction, .error .halt⟩] ++ Suspension.halts stack := rfl
      have hcalls : exec.calls - (s :: stack).length = exec.calls - 1 - stack.length := by
        rw [List.length_cons]
        omega
      rw [carry, Exit.reply, hturn, ih, hevents, hear_append, hcalls]
      rfl

/-- The handler that a standard machine runs under the name of the instruction that halts. -/
theorem Standard.eq_halt (hm : m.Standard)
    (hfetch : m.fetch state.base state.exec = (.ok (i, handler), begun))
    (hname : i.name = "HALT") : handler = Reference.halt := by
  obtain ⟨r, hr, hrow, hhandler⟩ := hm.exists_row_of_fetch hfetch
  exact hhandler.trans (Reference.row_halt hr (hrow.symm.trans hname))

/-- **The step of an instruction that halts** stops the run. Of the execution it changes the
instruction pointer, the counts and the sink. -/
theorem step_of_halt (hm : m.Standard) (hn : state.Nested m.maxCallDepth)
    (hfetch : m.fetch state.base state.exec = (.ok (i, handler), begun))
    (hname : i.name = "HALT") :
    m.step state =
      .stopped
        { state.begun.exec with
          calls := 0
          sink := state.exec.sink.map
            (·.hear (⟨i, .ok .halt⟩ :: Suspension.halts state.suspended)) }
        .halted := by
  obtain rfl := hm.eq_halt hfetch hname
  obtain ⟨rfl, -⟩ := fetch_eq_ok hfetch
  have hturn : turn i (Reference.halt m.toSetup i.toSite state.begun.exec) =
      .leaves .halted (report i (.ok .halt) state.begun.exec) := rfl
  have hcalls : state.exec.calls - state.suspended.length = 0 := by
    rw [hn.calls, Nat.sub_self]
  have hevents : (⟨i, .ok .halt⟩ :: Suspension.halts state.suspended : List Completion) =
      [⟨i, .ok .halt⟩] ++ Suspension.halts state.suspended := rfl
  simp only [step, hfetch, hturn, carry_halted hn.stacked, hevents, hear_append]
  exact congrArg (Status.stopped · _) (congrArg (Execution.mk _ _ _ _ _) hcalls)

/-- The result of a run is not set before its end. -/
theorem Reaches.result_eq (hm : m.Standard) (h : m.Reaches run state) :
    state.exec.result = run.exec.result := by
  obtain ⟨n, hn⟩ := h
  have houtput := iterate_eq_withOutput hm (.first run.exec) n
  rw [hn] at houtput
  exact congrArg (·.exec.result) (Status.running.inj houtput)

/-- A run that has come to a state ends with the step from it, if that step stops. -/
theorem Reaches.finish_of_stopped (hm : m.Standard) (hrun : run.Fresh) (h : m.Reaches run state)
    {exec : Execution} {exit : Exit} (hstep : m.step state = .stopped exec exit)
    (hbudget : ∀ L, m.maxSteps = some L → state.exec.steps < L)
    (hclock : m.maxSteps = none → state.exec.steps < 2 ^ 64) :
    run.finish m = run.ofStatus (.stopped exec exit) := by
  obtain ⟨n, hn⟩ := h
  obtain rfl : state.exec.steps = n := (steps_of_iterate hm hrun hn).1
  have hends : m.iterate (state.exec.steps + 1) { exec := run.exec } = .stopped exec exit :=
    (iterate_succ_of_running hn).trans hstep
  have hfuel : state.exec.steps + 1 ≤ m.fuel := by
    rw [fuel]
    cases hmax : m.maxSteps with
    | none => exact hclock hmax
    | some L =>
        have := hbudget L hmax
        simp only
        omega
  have hended : ∀ next,
      m.iterate (state.exec.steps + 1) { exec := run.exec } ≠ .running next := by
    intro next hrunning
    rw [hends] at hrunning
    cases hrunning
  rw [hrun.finish_eq, iterate_of_le hended hfuel, hends]

/-- **A halt at any depth freezes the run.** The instruction that halts is fetched inside any
number of calls and of armed scopes. Then the run ends as halted and without a result, and no
other handler is invoked any more. The frames are those right after the fetch, no call counts
as open, and the world is as it was. The events end with that of the instruction that halts and
those of the calls around it, from the innermost outwards, all with the outcome that they
halted. -/
theorem halt_freezes_run (hm : m.Standard) (hrun : run.Fresh) (hresult : run.exec.result = none)
    (hstate : m.Reaches run state)
    (hfetch : m.fetch state.base state.exec = (.ok (i, handler), begun))
    (hname : i.name = "HALT") :
    (∀ n, m.invocations (n + 1) state = 1) ∧
    state.suspended.length = state.exec.calls ∧
    ∃ after, run.EndsAs m after ∧
      ((m.maxSteps = none → state.exec.steps < 2 ^ 64) → run.finish m = after) ∧
      after.state = .halted ∧ after.exec.result = none ∧
      after.exec.context = state.exec.context.setIp (state.exec.context.ip + 1) ∧
      after.exec.world = state.exec.world ∧ after.exec.steps = state.exec.steps + 1 ∧
      after.exec.calls = 0 ∧
      after.exec.sink = state.exec.sink.map
        (·.hear (⟨i, .ok .halt⟩ :: Suspension.halts state.suspended)) ∧
      ∀ heard, state.exec.sink = some (.listener heard) →
        after.exec.sink = some (.listener (heard ++
          (i.event .halted ::
            state.suspended.map fun s => s.instruction.event .halted).toArray)) := by
  have hn := hstate.nested hm hrun
  have hstep := step_of_halt hm hn hfetch hname
  refine ⟨fun n => by simp only [invocations, hfetch, hstep], hn.calls.symm, ?_⟩
  refine ⟨run.ofStatus (m.step state), ?_, ?_, ?_⟩
  · obtain ⟨n, hreached⟩ := hstate
    refine ⟨fun hrunning => ?_, n + 1, by rw [iterate_succ_of_running hreached]⟩
    rw [hstep] at hrunning
    cases hrunning
  · intro hclock
    rw [hstep]
    exact hstate.finish_of_stopped hm hrun hstep (fetch_eq_ok hfetch).2.2.1 hclock
  · rw [hstep]
    refine ⟨rfl, (hstate.result_eq hm).trans hresult, rfl, rfl, rfl, rfl, rfl,
      fun heard hheard => ?_⟩
    simp only [Run.ofStatus, hheard, Option.map_some, Sink.hear_listener, List.map_cons,
      Suspension.halts, List.map_map]
    rfl

/-- A scope, a call, a scope and a call inside it, and the end of the run in the second
callee. -/
def haltInTwoCalls : Machine :=
  Reference.machine #[32, 11, 38, 13, 0, 37, 32, 23, 38, 25, 0, 37, 37]

/-- Its run under a listener. -/
def haltInTwoCallsHeard : Run :=
  haltInTwoCalls.start {} (some (.listener #[]))

theorem halt_freezes_run_haltInTwoCalls :
    ∃ state i handler begun after heard events,
      haltInTwoCalls.Reaches haltInTwoCallsHeard state ∧
      haltInTwoCalls.fetch state.base state.exec = (.ok (i, handler), begun) ∧
      i.name = "HALT" ∧ state.suspended.length = 2 ∧ state.exec.context.depth = 5 ∧
      haltInTwoCallsHeard.EndsAs haltInTwoCalls after ∧ after.state = .halted ∧
      after.exec.context.depth = 5 ∧ after.exec.calls = 0 ∧
      after.exec.sink = some (.listener (heard ++ events)) ∧
      events.toList.map (·.address) = [12, 8, 2] := by
  have hhalt : ∃ state i handler begun heard,
      haltInTwoCalls.iterate 4 { exec := haltInTwoCallsHeard.exec } = .running state ∧
      haltInTwoCalls.fetch state.base state.exec = (.ok (i, handler), begun) ∧
      i.name = "HALT" ∧ state.suspended.length = 2 ∧ state.exec.context.depth = 5 ∧
      state.exec.sink = some (.listener heard) ∧ i.address = 12 ∧
      state.suspended.map (·.instruction.address) = [8, 2] := by
    conv in haltInTwoCalls.iterate _ _ => cbv
    exact ⟨_, _, _, _, _, rfl, rfl, rfl, rfl, rfl, rfl, rfl, rfl⟩
  obtain ⟨state, i, handler, begun, heard, hn, hfetch, hname, hlength, hdepth, hheard, hinner,
    houter⟩ := hhalt
  have hreaches : haltInTwoCalls.Reaches haltInTwoCallsHeard state := ⟨4, hn⟩
  obtain ⟨-, -, after, hends, -, hhalted, -, hcontext, -, -, hcalls, -, hevents⟩ :=
    halt_freezes_run (Reference.standard_machine _) (fresh_start _ _ _) rfl hreaches hfetch hname
  refine ⟨state, i, handler, begun, after, heard, _, hreaches, hfetch, hname, hlength, hdepth,
    hends, hhalted, hcontext ▸ hdepth, hcalls, hevents heard hheard, ?_⟩
  rw [List.map_cons, List.map_map]
  exact congrArg₂ List.cons hinner houter

end Machine

end TaggedBytecode
