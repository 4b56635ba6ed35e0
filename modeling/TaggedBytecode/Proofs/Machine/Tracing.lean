import TaggedBytecode.Host.Standard
import TaggedBytecode.Proofs.Machine.HostCalls
import TaggedBytecode.Proofs.Machine.Output

/-!
# Tracing

**Tracing is transparent**: a run with a sink and the run without one come to the same end, in
the same number of steps, and make the same calls of the host. Both are the same run but for
the output, which no instruction reads.

## Main definitions

* `Run.withSink` — a run with another sink.

## Main results

* `Machine.hostCalls_withOutput` — the output has no part in the calls of the host.
* `Machine.tracing_transparent` — a sink changes nothing but itself.
-/

namespace TaggedBytecode

/-- The run with another sink, or without one. -/
def Run.withSink (run : Run) (sink : Option Sink) : Run :=
  { run with exec := { run.exec with sink } }

namespace Reference

/-- Reading what to call is composed if what comes next is. -/
theorem composed_calling {α : Type} {next : Val → List Val → HandlerM α}
    (hnext : ∀ callee args, (next callee args).Composed) (count : Nat) :
    (calling count next).Composed :=
  .bind HandlerM.closed_composed.reading.operand fun callee =>
    .bind (HandlerM.closed_composed.reading.operands count) (hnext callee)

theorem hostCall?_withOutput (name : String) (setup : Setup) (site : Site) (begun : Execution)
    (sink : Option Sink) (result : Option Val) :
    hostCall? name setup site (begun.withOutput sink result) = hostCall? name setup site begun := by
  rw [hostCall?, hostCall?]
  cases Assoc.get? name arities with
  | none => rfl
  | some count =>
      have hcalling := (composed_calling (fun callee args =>
        .pure (HostCall.ofCallee? callee args)) count).blind.unaffected setup site begun sink result
      simp only [hcalling]
      cases calling count (fun callee args => pure (HostCall.ofCallee? callee args))
        setup site begun with
      | finished reply _ => cases reply <;> rfl
      | _ => rfl

end Reference

namespace Machine

variable {m : Machine} {state : MachineState}

theorem hostCall?_withOutput (m : Machine) (state : MachineState) (sink : Option Sink)
    (result : Option Val) :
    m.hostCall? (state.withOutput sink result) = m.hostCall? state := by
  have hfetched := m.fetch_withOutput state.base state.exec sink result
  have hbase : (state.withOutput sink result).base = state.base := rfl
  rw [hostCall?, hostCall?, hbase]
  simp only [MachineState.withOutput, hfetched]
  obtain ⟨fault | started, begun⟩ := m.fetch state.base state.exec
  · rfl
  · exact Reference.hostCall?_withOutput _ _ _ _ _ _

/-- **The output has no part in the calls of the host.** Induction on the number of steps. -/
theorem hostCalls_withOutput (hm : m.Standard) (hstate : state.Blind) (n : Nat)
    (sink : Option Sink) (result : Option Val) :
    m.hostCalls n (state.withOutput sink result) = m.hostCalls n state := by
  induction n generalizing state sink with
  | zero => rfl
  | succ n ih =>
      rw [hostCalls, hostCalls, step_withOutput hm hstate, hostCall?_withOutput]
      cases hstep : m.step state with
      | running next => exact congrArg (_ ++ ·) (ih (blind_of_step hm hstate hstep) _)
      | _ => rfl

end Machine

namespace Run

variable {m : Machine} {run : Run}

/-- What a run with a sink comes to, seen without the sink, is what the run without one comes
to. -/
theorem withSink_ofStatus_iterate (hm : m.Standard) (run : Run) (sink : Sink) (n : Nat) :
    ((run.withSink (some sink)).ofStatus
        (m.iterate n { exec := (run.withSink (some sink)).exec })).withSink none =
      (run.withSink none).ofStatus (m.iterate n { exec := (run.withSink none).exec }) := by
  have houtput : ∀ sink, m.iterate n { exec := (run.withSink sink).exec } =
      (m.iterate n { exec := run.exec }).onExec (·.withOutput
        (sink.map (·.hear (m.completions n { exec := run.exec }))) run.exec.result) :=
    fun sink => Machine.iterate_withOutput hm (.first run.exec) n sink run.exec.result
  rw [houtput, houtput]
  cases m.iterate n { exec := run.exec } with
  | running state => rfl
  | aborted message => rfl
  | stopped exec exit =>
      cases exit with
      | halted | returned value => rfl
      | threw thrown => cases thrown <;> rfl

end Run

namespace Machine

variable {m : Machine}

/-- **Tracing is transparent.** A run with any sink, a recorder with whatever limit among them,
and the run without a sink have the same state, result, steps, fault, frames and world in the
end; and as they go, they make the same calls of the host in the same order. -/
theorem tracing_transparent (hm : m.Standard) (run : Run) (sink : Sink) :
    ((run.withSink (some sink)).finish m).withSink none = (run.withSink none).finish m ∧
    (∀ plain, (run.withSink none).EndsAs m plain ↔
      ∃ traced, (run.withSink (some sink)).EndsAs m traced ∧ traced.withSink none = plain) ∧
    ∀ n, m.hostCalls n { exec := (run.withSink (some sink)).exec } =
      m.hostCalls n { exec := (run.withSink none).exec } := by
  have hends := run.withSink_ofStatus_iterate hm sink
  refine ⟨?_, fun plain => ⟨?_, ?_⟩, fun n => ?_⟩
  · obtain ⟨exec, state⟩ := run
    cases state with
    | running => exact hends m.fuel
    | _ => rfl
  · rintro ⟨hended, n, rfl⟩
    refine ⟨_, ⟨fun hrunning => hended ?_, n, rfl⟩, hends n⟩
    rw [← hends n]
    exact hrunning
  · rintro ⟨traced, ⟨hended, n, rfl⟩, rfl⟩
    exact ⟨hended, n, (hends n).symm⟩
  · have houtput := hostCalls_withOutput hm (.first run.exec) n
    exact (houtput (some sink) run.exec.result).trans (houtput none run.exec.result).symm

/-- Two lines on the console, and the end. -/
def logTwice : Machine :=
  { Reference.machine #[36, 2, 3, 76, 87, 79, 15, 0, 36, 2, 3, 76, 87, 79, 17, 0, 37] with
    host := ({} : Host).register "log" Host.consoleLog
    maxSteps := some 5 }

theorem tracing_transparent_logTwice :
    ((logTwice.start {} (some (.recorder { limit := 1 }))).finish logTwice).withSink none =
      logTwice.start.finish logTwice ∧
    (logTwice.start.finish logTwice).exec.world.console = #["7", "8"] ∧
    logTwice.hostCalls 5 { exec := (logTwice.start {} (some (.recorder { limit := 1 }))).exec } =
      [⟨"log", [.int 7]⟩, ⟨"log", [.int 8]⟩] := by
  have hm : logTwice.Standard := Reference.standard_machine logTwice.program
  obtain ⟨hfinish, -, hcalls⟩ :=
    tracing_transparent hm logTwice.start (.recorder { limit := 1 })
  have hplain : logTwice.hostCalls 5 { exec := logTwice.start.exec } =
      [⟨"log", [.int 7]⟩, ⟨"log", [.int 8]⟩] := by
    cbv
  exact ⟨hfinish, by cbv, (hcalls 5).trans hplain⟩

end Machine

end TaggedBytecode
