import TaggedBytecode.Proofs.Collection.Ranking
import TaggedBytecode.Proofs.Machine.Budget
import TaggedBytecode.Proofs.Machine.Output

/-!
# Accounting for Steps

The **history** of a run has a mark for every instruction that starts and one for every
instruction that completes. The marks are nested like brackets: what completes is always the
instruction that started last among those that still run. Once the run has ended none is open
any more, so every instruction that was started has completed, each behind those of its callee.

A recorder hears the completions. What it counts is therefore what the run counted, and what it
keeps are the first completions.

## Main definitions

* `Mark`, `Machine.history` — the history of a run.
* `Mark.Replays` — marks that are nested.
* `TraceRecorder.Records` — a recording of some events.

## Main results

* `Machine.replays_history` — the marks of a run are nested.
* `Machine.exists_fetch_of_dispatched` — the instruction of a step is the one that is fetched.
* `Machine.recorder_accounts_for_steps` — a recorder accounts for every step of a run.
-/

namespace TaggedBytecode

/-! ### Recordings -/

namespace TraceRecorder

variable {r : TraceRecorder} {events : List TraceEvent}

/-- A recording of some events: it counts all and keeps the first ones. -/
structure Records (r : TraceRecorder) (events : List TraceEvent) : Prop where
  total : r.total = events.length
  entries : r.entries.toList = events.take r.limit
  frequencies : r.frequencies = Tally.ofList (events.map (·.opcode))

theorem records_nil (limit : Nat) : Records { limit } [] :=
  ⟨rfl, List.take_nil.symm, rfl⟩

/-- A recorder takes note of one more event. -/
theorem Records.record (h : r.Records events) (event : TraceEvent) :
    (r.record event).Records (events ++ [event]) := by
  have hsize : r.entries.size = min r.limit events.length := by
    rw [← Array.length_toList, h.entries, List.length_take]
  refine ⟨?_, ?_, ?_⟩
  · simp only [TraceRecorder.record, h.total, List.length_append, List.length_singleton]
  · simp only [TraceRecorder.record, hsize]
    by_cases hkept : events.length < r.limit
    · rw [if_pos (by omega), Array.toList_push, h.entries, List.take_of_length_le (by omega),
        List.take_of_length_le (by simp; omega)]
    · rw [if_neg (by omega), h.entries, List.take_append_of_le_length (by omega)]
  · rw [List.map_append, List.map_singleton, Tally.ofList_append, ← h.frequencies]
    rfl

/-- The frequencies of a recording are those of the opcodes of its events. -/
theorem Records.ranks (h : r.Records events) :
    Tally.Ranks r.frequencies.ranking (events.map (·.opcode)) :=
  h.frequencies ▸ Tally.ranks_ofList _

/-- A recorder hears completions. Induction on the completions. -/
theorem Records.hear (h : r.Records events) (completions : List Completion) :
    ∃ r', Sink.hear completions (.recorder r) = .recorder r' ∧ r'.limit = r.limit ∧
      r'.Records (events ++ completions.map (·.event)) := by
  induction completions generalizing r events with
  | nil => exact ⟨r, rfl, rfl, by simpa using h⟩
  | cons c completions ih =>
      obtain ⟨r', hhear, hlimit, hrecords⟩ := ih (h.record c.event)
      exact ⟨r', hhear, hlimit, by simpa using hrecords⟩

end TraceRecorder

/-! ### Histories -/

/-- A mark in the history of a run. -/
inductive Mark where
  | started (i : Instruction)
  | completed (c : Completion)

namespace Mark

/-- The instructions that are started, in order. -/
def dispatched (marks : List Mark) : List Instruction :=
  marks.filterMap fun
    | started i => some i
    | completed _ => none

/-- The completions, in order. -/
def completions (marks : List Mark) : List Completion :=
  marks.filterMap fun
    | started _ => none
    | completed c => some c

/-- Marks lead from the instructions that run to others, the one started last first, if every
completion is that of the instruction started last. -/
inductive Replays : List Instruction → List Mark → List Instruction → Prop
  | nil {running : List Instruction} : Replays running [] running
  | started {i : Instruction} {running after : List Instruction} {marks : List Mark} :
      Replays (i :: running) marks after → Replays running (started i :: marks) after
  | completed {c : Completion} {running after : List Instruction} {marks : List Mark} :
      Replays running marks after →
      Replays (c.instruction :: running) (completed c :: marks) after

variable {running mid after : List Instruction} {marks rest : List Mark}

theorem Replays.append (h : Replays running marks mid) (hrest : Replays mid rest after) :
    Replays running (marks ++ rest) after := by
  induction h with
  | nil => exact hrest
  | started _ ih => exact .started (ih hrest)
  | completed _ ih => exact .completed (ih hrest)

/-- Nested marks complete what ran before and what they start, except for what runs after. -/
theorem Replays.perm (h : Replays running marks after) :
    (running ++ dispatched marks).Perm ((completions marks).map (·.instruction) ++ after) := by
  induction h with
  | nil => simp [dispatched, completions]
  | started _ ih => exact List.perm_middle.trans ih
  | completed _ ih => exact ih.cons _

/-- Nested marks that leave nothing open complete just what they start. -/
theorem Replays.perm_of_closed (h : Replays [] marks []) :
    ((completions marks).map (·.instruction)).Perm (dispatched marks) := by
  simpa using h.perm.symm

theorem dispatched_append (marks rest : List Mark) :
    dispatched (marks ++ rest) = dispatched marks ++ dispatched rest :=
  List.filterMap_append

theorem completions_append (marks rest : List Mark) :
    completions (marks ++ rest) = completions marks ++ completions rest :=
  List.filterMap_append

end Mark

/-- The execution of a status, unless the run was aborted. -/
def Status.exec? : Status → Option Execution
  | running state => some state.exec
  | stopped exec _ => some exec
  | aborted _ => none

/-- The instructions that wait for callees at a status, the innermost first. -/
def Status.waiting : Status → List Instruction
  | running state => state.suspended.map (·.instruction)
  | _ => []

namespace Machine

/-- The instruction that the next step starts, if its fetch succeeds. -/
def started? (m : Machine) (state : MachineState) : Option Instruction :=
  match m.fetch state.base state.exec with
  | (.ok (i, _), _) => some i
  | (.error _, _) => none

/-- The marks of a step. -/
def marks (m : Machine) (state : MachineState) : List Mark :=
  (m.started? state).toList.map .started ++ (m.completing state).map .completed

/-- The marks of the next `n` steps, in order. -/
def history (m : Machine) : (n : Nat) → MachineState → List Mark
  | 0, _ => []
  | n + 1, state =>
    m.marks state ++
    match m.step state with
    | .running next => history m n next
    | _ => []

variable {m : Machine} {run : Run} {state : MachineState} {exec : Execution}

theorem dispatched_marks (m : Machine) (state : MachineState) :
    Mark.dispatched (m.marks state) = (m.started? state).toList := by
  simp [Mark.dispatched, marks, List.filterMap_map]

theorem completions_marks (m : Machine) (state : MachineState) :
    Mark.completions (m.marks state) = m.completing state := by
  simp [Mark.completions, marks, List.filterMap_map]

/-- The completions in a history are those that the sink hears of. -/
theorem completions_history (m : Machine) (n : Nat) (state : MachineState) :
    Mark.completions (m.history n state) = m.completions n state := by
  induction n generalizing state with
  | zero => rfl
  | succ n ih =>
      rw [history, completions, Mark.completions_append, completions_marks]
      cases m.step state with
      | running next => exact congrArg (_ ++ ·) (ih next)
      | _ => rfl

/-! ### Nesting -/

/-- The turn of an instruction completes it, unless it waits, and those whose calls are left on
the way. Induction on the suspended instructions. -/
theorem replays_turn (i : Instruction) (p : Progress Flow) {stack : List Suspension}
    (h : (carry (turn i p) stack).exec? = some exec) :
    Mark.Replays (i :: stack.map (·.instruction))
      ((completed i p ++ carried (turn i p) stack).map .completed)
      (carry (turn i p) stack).waiting := by
  cases p with
  | aborted message =>
      rw [turn, carry] at h
      cases h
  | suspended base opened resume =>
      simp only [turn, carry, completed, carried, List.append_nil, List.map_nil]
      exact .nil
  | finished reply after =>
      cases hturn : turn i (.finished reply after) with
      | goesOn goes =>
          simp only [carry, completed, carried, List.append_nil]
          exact .completed (c := ⟨i, reply⟩) .nil
      | leaves exit left =>
          rw [hturn] at h
          cases stack with
          | nil => exact .completed (c := ⟨i, reply⟩) .nil
          | cons s stack => exact .completed (c := ⟨i, reply⟩) (replays_turn s.instruction _ h)
      | _ =>
          simp only [turn] at hturn
          split at hturn <;> cases hturn

/-- **The marks of a step are nested.** -/
theorem replays_marks {status : Status} (hstep : m.step state = status)
    (h : status.exec? = some exec) :
    Mark.Replays (state.suspended.map (·.instruction)) (m.marks state) status.waiting := by
  subst hstep
  rw [marks, completing, started?]
  rw [step] at h ⊢
  cases hfetch : m.fetch state.base state.exec with
  | mk started begun =>
      simp only [hfetch] at h
      cases started with
      | ok started => exact .started (replays_turn started.1 _ h)
      | error fault =>
          cases hstack : state.suspended with
          | nil => exact .nil
          | cons s stack =>
              rw [hstack] at h
              exact replays_turn s.instruction _ h

/-- **The marks of a run are nested.** Induction on the number of steps. -/
theorem replays_history {n : Nat} (h : (m.iterate n state).exec? = some exec) :
    Mark.Replays (state.suspended.map (·.instruction)) (m.history n state)
      (m.iterate n state).waiting := by
  induction n generalizing state with
  | zero => exact .nil
  | succ n ih =>
      rw [history]
      rw [iterate] at h ⊢
      cases hstep : m.step state with
      | running next =>
          rw [hstep] at h
          exact (replays_marks hstep rfl).append (ih h)
      | stopped after exit => exact (replays_marks hstep rfl).append .nil
      | aborted message =>
          rw [hstep] at h
          cases h

/-! ### Counting -/

/-- A step counts the instruction that it starts. -/
theorem steps_of_exec? (hm : m.Standard) (hn : state.Nested m.maxCallDepth)
    (h : (m.step state).exec? = some exec) :
    exec.steps = state.exec.steps + (m.started? state).toList.length := by
  cases hfetch : m.fetch state.base state.exec with
  | mk started begun =>
      cases started with
      | error fault =>
          obtain ⟨after, hstep, -, hsteps⟩ := step_of_fetch_error hn hfetch
          rw [hstep] at h
          obtain rfl := Option.some.inj h
          simp only [started?, hfetch, Option.toList_none, List.length_nil]
          exact hsteps.trans (fetch_eq_error hfetch).1
      | ok started =>
          simp only [started?, hfetch, Option.toList_some, List.length_singleton]
          cases hstep : m.step state with
          | running next =>
              rw [hstep] at h
              obtain rfl := Option.some.inj h
              exact (steps_of_step hm hn hstep).1
          | stopped after exit =>
              rw [hstep] at h
              obtain rfl := Option.some.inj h
              rcases step_stopped hm hn hstep with ⟨fault, fetched, hfault, -⟩ | ⟨-, -, hsteps⟩
              · rw [hfetch] at hfault
                cases hfault
              · exact hsteps
          | aborted message =>
              rw [hstep] at h
              cases h

/-- Steps count the instructions that they start. Induction on the number of steps. -/
theorem steps_of_iterate_exec? (hm : m.Standard) (hn : state.Nested m.maxCallDepth) {n : Nat}
    (h : (m.iterate n state).exec? = some exec) :
    exec.steps = state.exec.steps + (Mark.dispatched (m.history n state)).length := by
  induction n generalizing state with
  | zero =>
      obtain rfl := Option.some.inj h
      rfl
  | succ n ih =>
      rw [iterate] at h
      rw [history, Mark.dispatched_append, dispatched_marks, List.length_append, ← Nat.add_assoc]
      cases hstep : m.step state with
      | running next =>
          rw [hstep] at h
          have hnext : (m.step state).exec? = some next.exec := hstep ▸ rfl
          rw [← steps_of_exec? hm hn hnext]
          exact ih (nested_of_step hm hn hstep) h
      | _ =>
          rw [hstep] at h
          exact steps_of_exec? hm hn (hstep ▸ h)

/-- **The instruction of a step is the one that is fetched.** Induction on the number of
steps. -/
theorem exists_fetch_of_dispatched (hm : m.Standard) (hn : state.Nested m.maxCallDepth)
    {n k : Nat} {i : Instruction}
    (h : (Mark.dispatched (m.history n state))[k]? = some i) :
    ∃ reached handler begun, m.iterate k state = .running reached ∧
      m.fetch reached.base reached.exec = (.ok (i, handler), begun) := by
  induction n generalizing state k with
  | zero => simp [history, Mark.dispatched] at h
  | succ n ih =>
      rw [history, Mark.dispatched_append, dispatched_marks] at h
      cases hfetch : m.fetch state.base state.exec with
      | mk started begun =>
          cases started with
          | error fault =>
              obtain ⟨after, hstep, -⟩ := step_of_fetch_error hn hfetch
              simp [started?, hfetch, hstep, Mark.dispatched] at h
          | ok started =>
              obtain ⟨j, handler⟩ := started
              simp only [started?, hfetch, Option.toList_some, List.singleton_append] at h
              cases k with
              | zero =>
                  obtain rfl := Option.some.inj h
                  exact ⟨state, handler, begun, rfl, hfetch⟩
              | succ k =>
                  rw [List.getElem?_cons_succ] at h
                  rw [iterate]
                  cases hstep : m.step state with
                  | running next =>
                      rw [hstep] at h
                      exact ih (nested_of_step hm hn hstep) h
                  | _ =>
                      rw [hstep] at h
                      cases h

/-! ### Recorders -/

end Machine

/-- A run that halted or faulted has stopped. -/
theorem Run.stopped_of_ended {run : Run} {status : Status}
    (h : (run.ofStatus status).state = .halted ∨
      ∃ fault, (run.ofStatus status).state = .faulted fault) :
    ∃ exec exit, status = .stopped exec exit ∧ (run.ofStatus status).exec.sink = exec.sink ∧
      (run.ofStatus status).exec.steps = exec.steps := by
  cases status with
  | running state => rcases h with h | ⟨fault, h⟩ <;> cases h
  | aborted message => rcases h with h | ⟨fault, h⟩ <;> cases h
  | stopped exec exit =>
      refine ⟨exec, exit, rfl, ?_⟩
      cases exit with
      | halted | returned value => exact ⟨rfl, rfl⟩
      | threw thrown => cases thrown <;> exact ⟨rfl, rfl⟩

namespace Machine

variable {m : Machine} {run : Run}

/-- The marks of a run that has stopped leave nothing open. -/
theorem replays_history_of_stopped {n : Nat} {exec : Execution} {exit : Exit}
    (h : m.iterate n { exec := run.exec } = .stopped exec exit) :
    Mark.Replays [] (m.history n { exec := run.exec }) [] := by
  have hexec : (m.iterate n { exec := run.exec }).exec? = some exec := h ▸ rfl
  have hreplays := replays_history hexec
  rwa [h] at hreplays

/-- A run counts the instructions that it starts. -/
theorem steps_of_stopped (hm : m.Standard) (hrun : run.Fresh) {n : Nat} {exec : Execution}
    {exit : Exit} (h : m.iterate n { exec := run.exec } = .stopped exec exit) :
    exec.steps = (Mark.dispatched (m.history n { exec := run.exec })).length := by
  have hn : m.Reaches run { exec := run.exec } := ⟨0, rfl⟩
  have hexec : (m.iterate n { exec := run.exec }).exec? = some exec := h ▸ rfl
  rw [steps_of_iterate_exec? hm (hn.nested hm hrun) hexec, hrun.steps, Nat.zero_add]

/-- What a recorder has recorded when a run has stopped: the completions of the run. -/
theorem exists_recorder_of_stopped (hm : m.Standard) {limit : Nat}
    (hsink : run.exec.sink = some (.recorder { limit })) {n : Nat} {exec : Execution}
    {exit : Exit} (h : m.iterate n { exec := run.exec } = .stopped exec exit) :
    ∃ r, exec.sink = some (.recorder r) ∧ r.limit = limit ∧
      r.Records ((Mark.completions (m.history n { exec := run.exec })).map (·.event)) := by
  obtain ⟨r, hhear, hlimit, hrecords⟩ := (TraceRecorder.records_nil limit).hear
    (Mark.completions (m.history n { exec := run.exec }))
  have houtput := iterate_eq_withOutput hm (.first run.exec) n
  rw [h, hsink, ← completions_history, Option.map_some, hhear] at houtput
  exact ⟨r, congrArg Execution.sink (Status.stopped.inj houtput).1, hlimit, hrecords⟩

/-- **A recorder accounts for every step.** A run with a fresh recorder halts or faults after
some steps. Then the recorder has counted as many events as the run counts steps. The ranking of
its frequencies is that of the opcodes that were dispatched. It has kept the events of the first
instructions to complete, as far as its limit allows. Instructions complete in the order of
nested brackets, the callee's before the one that called, and each that was dispatched completes
once. What an event tells of its instruction, the frame depth among it, was so when that
instruction was fetched. -/
theorem recorder_accounts_for_steps (hm : m.Standard) (hrun : run.Fresh) {limit : Nat}
    (hsink : run.exec.sink = some (.recorder { limit })) {n : Nat} {after : Run}
    (hafter : run.ofStatus (m.iterate n { exec := run.exec }) = after)
    (hended : after.state = .halted ∨ ∃ fault, after.state = .faulted fault) :
    let history := m.history n { exec := run.exec }
    ∃ r, after.exec.sink = some (.recorder r) ∧ r.total = after.outcome.steps ∧
      (r.frequencies.ranking.map (·.2)).sum = r.total ∧
      Tally.Ranks r.frequencies.ranking ((Mark.dispatched history).map (·.opcode)) ∧
      r.entries.size = min limit r.total ∧
      r.entries.toList = ((Mark.completions history).map (·.event)).take limit ∧
      Mark.Replays [] history [] ∧
      ((Mark.completions history).map (·.instruction)).Perm (Mark.dispatched history) ∧
      ∀ k i, (Mark.dispatched history)[k]? = some i →
        ∃ state handler begun, m.iterate k { exec := run.exec } = .running state ∧
          m.fetch state.base state.exec = (.ok (i, handler), begun) ∧
          i.address = state.exec.context.ip ∧ m.program[i.address]? = some i.opcode ∧
          i.depth = state.exec.context.depth := by
  intro history
  subst hafter
  obtain ⟨exec, exit, hstopped, hsame, hsteps⟩ := Run.stopped_of_ended hended
  obtain ⟨r, hrecorder, hlimit, hrecords⟩ := exists_recorder_of_stopped hm hsink hstopped
  have hreplays : Mark.Replays [] history [] := replays_history_of_stopped hstopped
  have hperm := hreplays.perm_of_closed
  have htotal : r.total = (Mark.dispatched history).length := by
    rw [hrecords.total, List.length_map, ← hperm.length_eq, List.length_map]
  have hranks : Tally.Ranks r.frequencies.ranking ((Mark.dispatched history).map (·.opcode)) := by
    have hopcodes := hperm.map (·.opcode)
    rw [List.map_map] at hopcodes
    refine hrecords.ranks.perm ?_
    rw [List.map_map]
    exact hopcodes
  refine ⟨r, hsame.trans hrecorder, ?_, ?_, hranks, ?_, ?_, hreplays, hperm, fun k i hi => ?_⟩
  · rw [htotal, ← steps_of_stopped hm hrun hstopped]
    exact hsteps.symm
  · rw [hranks.sum, List.length_map, htotal]
  · rw [← Array.length_toList, hrecords.entries, List.length_take, hrecords.total, hlimit]
  · rw [hrecords.entries, hlimit]
  · have hfirst : m.Reaches run { exec := run.exec } := ⟨0, rfl⟩
    obtain ⟨state, handler, begun, hreached, hfetch⟩ :=
      exists_fetch_of_dispatched hm (hfirst.nested hm hrun) hi
    obtain ⟨haddress, hopcode, -⟩ := entry_of_fetch hfetch
    exact ⟨state, handler, begun, hreached, hfetch, haddress, hopcode, depth_of_fetch hfetch⟩

/-- A scope with a call that returns and a call that throws, and the end behind the catch. -/
def returnThenThrow : Machine :=
  Reference.machine #[32, 17, 38, 19, 0, 38, 23, 0, 37, 25, 7, 26, 19]

theorem recorder_accounts_for_steps_returnThenThrow :
    ∃ after r, (returnThenThrow.start {} (some (.recorder { limit := 3 }))).ofStatus
        (returnThenThrow.iterate 6
          { exec := (returnThenThrow.start {} (some (.recorder { limit := 3 }))).exec }) = after ∧
      after.state = .halted ∧ after.exec.sink = some (.recorder r) ∧ r.total = 6 ∧
      r.entries.toList.map (·.address) = [0, 9, 2] ∧
      Tally.Ranks r.frequencies.ranking [32, 38, 25, 38, 26, 37] := by
  have hends : ∃ after, (returnThenThrow.start {} (some (.recorder { limit := 3 }))).ofStatus
        (returnThenThrow.iterate 6
          { exec := (returnThenThrow.start {} (some (.recorder { limit := 3 }))).exec }) = after ∧
      after.state = .halted ∧ after.outcome.steps = 6 := by
    conv in returnThenThrow.iterate _ _ => cbv
    exact ⟨_, rfl, rfl, rfl⟩
  obtain ⟨after, hafter, hhalted, hsteps⟩ := hends
  obtain ⟨r, hsink, htotal, -, hranks, -, hentries, -⟩ :=
    recorder_accounts_for_steps (Reference.standard_machine _) (fresh_start _ _ _) rfl hafter
      (.inl hhalted)
  have hopcodes : (Mark.dispatched (returnThenThrow.history 6
      { exec := (returnThenThrow.start {} (some (.recorder { limit := 3 }))).exec })).map
        (·.opcode) = [32, 38, 25, 38, 26, 37] := by
    cbv
  have haddresses : (((Mark.completions (returnThenThrow.history 6
      { exec := (returnThenThrow.start {} (some (.recorder { limit := 3 }))).exec })).map
        (·.event)).take 3).map (·.address) = [0, 9, 2] := by
    cbv
  exact ⟨after, r, hafter, hhalted, hsink, htotal.trans hsteps, hentries ▸ haddresses,
    hopcodes ▸ hranks⟩

end Machine

end TaggedBytecode
