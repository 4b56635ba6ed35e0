import TaggedBytecode.Proofs.Context.Delivery
import TaggedBytecode.Proofs.Context.Variables
import TaggedBytecode.Proofs.Machine.Subsiding

/-!
# Disarmed Frames

Code that catches takes its exception first, which **disarms** its frame. It is safe from itself
then: whatever is thrown in its frame, or in calls and scopes above that do not catch it, passes
the frame by. An exception is delivered to armed frames only, and frames subside, so this holds
for as long as the frame is live.

## Main definitions

* `Machine.Delivers` — a step in which an exception is delivered to a frame.
* `MachineState.Disarmed` — a frame that is disarmed.
* `Machine.StepsKeeping` — a step after which a frame is still live.

## Main results

* `Machine.exists_catchesNoMore_of_step` — a disarmed frame catches no more in a step.
* `Machine.throws_past_disarmed` — what is thrown past a disarmed frame.
* `Machine.disarmed_frame_never_catches` — a disarmed frame never catches again.
-/

namespace TaggedBytecode

open Relation (ReflTransGen)

/-! ### Deliveries -/

namespace Machine

variable {m : Machine} {run : Run} {state next : MachineState} {i : Instruction}
  {exec : Execution} {stack : List Suspension} {k : Nat} {v w : Val}

/-- In the step from a state an exception is delivered to a frame. -/
def Delivers (m : Machine) (state : MachineState) (k : Nat) (v : Val) : Prop :=
  ∃ i exec stack recovered after,
    m.Active state i (.finished (.error (.exception v)) exec) stack ∧
      exec.context.raise v i.base = (.ok recovered, after) ∧ recovered.frame = k

/-- What a delivery leaves of the frames. -/
theorem Delivers.caught (h : m.Delivers state k v) (hstep : m.step state = .running next) :
    next.exec.context.currentIndex = k ∧ next.exec.context.pending = some v := by
  obtain ⟨i, exec, stack, recovered, after, hactive, hraise, hframe⟩ := h
  obtain ⟨-, -, -, hindex, f, -, -, hcurrent, -⟩ := Context.raise_eq_ok hraise
  have hraise' : (report i (.error (.exception v)) exec).context.raise v i.base =
      (.ok recovered, after) := hraise
  have hnext : next.exec.context = after := by
    rw [hactive.step_eq] at hstep
    simp only [turn, settle, hraise', carry, Status.running.injEq] at hstep
    rw [← hstep]
  rw [hnext, Context.pending, hcurrent]
  exact ⟨hindex.trans hframe, rfl⟩

end Machine

/-! ### Disarmed frames -/

/-- A frame of a state is disarmed, and it holds an exception or has forgotten it. -/
def MachineState.Disarmed (state : MachineState) (k : Nat) (v : Val) : Prop :=
  ∃ f, state.exec.context.frame? k = some f ∧ f.handler = none ∧
    (f.pending = some v ∨ f.pending = none)

namespace Machine

/-- A step after which a frame is still live. -/
def StepsKeeping (m : Machine) (k : Nat) (a b : MachineState) : Prop :=
  m.step a = .running b ∧ k < b.exec.context.depth

variable {m : Machine} {run : Run} {state next : MachineState} {i : Instruction}
  {exec : Execution} {stack : List Suspension} {k : Nat} {v w : Val}

/-- A disarmed frame is still disarmed when an instruction throws. -/
theorem Active.handler_eq_none_of_throws (hm : m.Standard) (hwrites : m.AllWrite state)
    (hdisarmed : state.Disarmed k v)
    (h : m.Active state i (.finished (.error (.exception w)) exec) stack) {g : Frame}
    (hg : exec.context.frame? k = some g) : g.handler = none := by
  obtain ⟨f, hf, hnone, -⟩ := hdisarmed
  obtain ⟨f', hf', hless⟩ := h.retains_of_throws hm hwrites k g hg
  obtain rfl : f = f' := Option.some.inj (hf.symm.trans hf')
  exact hless.handler_eq_none hnone

/-- No exception is delivered to a disarmed frame. -/
theorem not_delivers_of_disarmed (hm : m.Standard) (hwrites : m.AllWrite state)
    (hdisarmed : state.Disarmed k v) (w : Val) : ¬m.Delivers state k w := by
  rintro ⟨i, exec, stack, recovered, after, hactive, hraise, rfl⟩
  obtain ⟨hcatcher, -⟩ := Context.raise_eq_ok hraise
  obtain ⟨-, g, hg, harmed⟩ := Context.catcher_sound hcatcher
  rw [Frame.isArmed, hactive.handler_eq_none_of_throws hm hwrites hdisarmed hg] at harmed
  cases harmed

/-- **A disarmed frame catches no more** in a step that keeps it. -/
theorem exists_catchesNoMore_of_step (hm : m.Standard) (hn : state.Nested m.maxCallDepth)
    (hwrites : m.AllWrite state) {f : Frame} (hf : state.exec.context.frame? k = some f)
    (hnone : f.handler = none) (h : m.StepsKeeping k state next) :
    ∃ g, next.exec.context.frame? k = some g ∧ f.CatchesNoMore g := by
  obtain ⟨hstep, hlive⟩ := h
  obtain ⟨-, hsubsides | ⟨thrown, index, w, hretains, hcaught⟩⟩ :=
    step_subsides hm hn hwrites hstep
  · obtain ⟨g, hg⟩ := Context.exists_frame?_of_lt hlive
    exact ⟨g, hg, hsubsides k f g hf hg⟩
  · -- The catcher was armed, so it is another frame, and all below it is as it was thrown from.
    obtain ⟨c, target, hc, htarget, -⟩ := hcaught.catcher
    have hne : k ≠ index := by
      rintro rfl
      obtain ⟨f', hf', hless⟩ := hretains k c hc
      obtain rfl : f = f' := Option.some.inj (hf.symm.trans hf')
      rw [hless.handler_eq_none hnone] at htarget
      cases htarget
    have hbelow : k < index := by
      rw [hcaught.depth] at hlive
      omega
    obtain ⟨g, hg⟩ := Context.exists_frame?_of_lt hlive
    obtain ⟨f', hf', hless⟩ := hretains k g (hcaught.below k hbelow ▸ hg)
    obtain rfl : f = f' := Option.some.inj (hf.symm.trans hf')
    exact ⟨g, hg, hless⟩

/-- A disarmed frame stays disarmed while it is live. -/
theorem disarmed_of_step (hm : m.Standard) (hn : state.Nested m.maxCallDepth)
    (hwrites : m.AllWrite state) (hdisarmed : state.Disarmed k v)
    (h : m.StepsKeeping k state next) : next.Disarmed k v := by
  obtain ⟨f, hf, hnone, hpending⟩ := hdisarmed
  obtain ⟨g, hg, hless⟩ := exists_catchesNoMore_of_step hm hn hwrites hf hnone h
  refine ⟨g, hg, hless.handler_eq_none hnone, ?_⟩
  rcases hless.pending with hsame | hforgotten
  · exact hsame ▸ hpending
  · exact .inr hforgotten

/-- After any number of steps that keep it, a disarmed frame is disarmed. Induction on the
steps. -/
theorem disarmed_of_steps (hm : m.Standard) (hrun : run.Fresh) {later : MachineState}
    (h : ReflTransGen (m.StepsKeeping k) state later) (hstate : m.Reaches run state)
    (hdisarmed : state.Disarmed k v) : m.Reaches run later ∧ later.Disarmed k v := by
  induction h with
  | refl => exact ⟨hstate, hdisarmed⟩
  | tail _ hstep ih =>
      obtain ⟨hmid, hdisarmed⟩ := ih
      have hn := hmid.nested hm hrun
      have hwrites := hmid.allWrite hm hrun
      exact ⟨hmid.next hstep.1, disarmed_of_step hm hn hwrites hdisarmed hstep⟩

/-- **What is thrown past a disarmed frame**, with no armed frame above it, is caught below it or
ends the run. -/
theorem throws_past_disarmed (hm : m.Standard) (hrun : run.Fresh) (hstate : m.Reaches run state)
    (hdisarmed : state.Disarmed k v)
    (h : m.Active state i (.finished (.error (.exception w)) exec) stack)
    (habove : ∀ j f, k < j → exec.context.frame? j = some f → f.handler = none) :
    (∃ j < k, ∃ next, m.step state = .running next ∧
        Context.Caught exec.context j w next.exec.context) ∨
      ∃ after, run.EndsAs m after ∧ after.state = .faulted (.unhandled w) := by
  have hwrites := hstate.allWrite hm hrun
  obtain ⟨-, hunwound⟩ := h.unwound hm (hstate.nested hm hrun) (hstate.linked hm hrun)
  generalize hstatus : m.step state = status at hunwound
  cases hunwound with
  | @caught j loop after hcatcher _ _ _ _ hcaught =>
      obtain ⟨-, f, hf, harmed⟩ := Context.catcher_sound hcatcher
      refine .inl ⟨j, ?_, _, rfl, hcaught⟩
      by_contra hge
      have hnone : f.handler = none := by
        rcases Nat.lt_or_eq_of_le (Nat.le_of_not_lt hge) with hlt | rfl
        · exact habove j f hlt hf
        · exact h.handler_eq_none_of_throws hm hwrites hdisarmed hf
      rw [Frame.isArmed, hnone] at harmed
      cases harmed
  | @uncaught left =>
      obtain ⟨n, hn⟩ := hstate
      refine .inr ⟨run.ofStatus (.stopped left (.threw (.exception w))), ⟨nofun, n + 1, ?_⟩, rfl⟩
      rw [iterate_succ_of_running hn, hstatus]

end Machine

/-! ### Taking an exception -/

namespace Reference

/-- The row of the instruction that takes an exception. -/
theorem row_getException {r : OpcodeRow} (h : r ∈ opcodes) (hname : r.info.name = "GET_EXCEPTION") :
    r.handler = getException := by
  revert r
  simp [opcodes, row]

end Reference

namespace Machine

variable {m : Machine} {run : Run} {state : MachineState} {i : Instruction} {handler : Handler}
  {begun : Execution} {k dest position : Nat} {v : Val}

/-- The step of an instruction that takes an exception and has a destination. -/
theorem step_of_getException (hm : m.Standard)
    (hfetch : m.fetch state.base state.exec = (.ok (i, handler), begun))
    (hname : i.name = "GET_EXCEPTION")
    (hslot : Decoder.slot m.program begun.context.ip = .ok (dest, position)) :
    ∃ next, m.step state = .running next ∧ next.suspended = state.suspended ∧
      next.exec.context = (state.exec.context.clearHandler.setIp position).store dest
        (state.exec.context.pending.getD .undefined) := by
  obtain ⟨r, hr, hrow, rfl⟩ := hm.exists_row_of_fetch hfetch
  obtain ⟨rfl, -⟩ := fetch_eq_ok hfetch
  have hhandler : r.handler = Reference.getException :=
    Reference.row_getException hr (hrow ▸ hname)
  rw [hhandler] at hfetch
  exact ⟨_, step_of_finished hfetch (Reference.getException_of_slot hslot), rfl, rfl⟩

/-- **A disarmed frame never catches again.** Let an exception be delivered to a frame of a run of
a standard machine, and let the first instruction there take it, with a destination that can be
read. Then the destination has the exception, and the frame is disarmed. From there on, while
the frame is live, it catches no more than before: no exception is delivered to it, and what it
holds is not replaced. What is thrown with no armed frame above it is caught by an armed frame
below it or ends the run as unhandled. -/
theorem disarmed_frame_never_catches (hm : m.Standard) (hrun : run.Fresh)
    {thrower first : MachineState} (hthrower : m.Reaches run thrower)
    (hdelivers : m.Delivers thrower k v) (hcaught : m.step thrower = .running first)
    (hfetch : m.fetch first.base first.exec = (.ok (i, handler), begun))
    (hname : i.name = "GET_EXCEPTION")
    (hslot : Decoder.slot m.program begun.context.ip = .ok (dest, position)) :
    ∃ second, m.step first = .running second ∧ second.suspended = first.suspended ∧
      second.exec.context = (first.exec.context.clearHandler.setIp position).store dest v ∧
      second.exec.context.resolve dest = some v ∧ second.exec.context.currentIndex = k ∧
      second.exec.context.current.handler = none ∧
      ∀ later, ReflTransGen (m.StepsKeeping k) second later →
        (∃ f, later.exec.context.frame? k = some f ∧ f.handler = none ∧
          (f.pending = some v ∨ f.pending = none) ∧
          ∀ next, m.StepsKeeping k later next →
            ∃ g, next.exec.context.frame? k = some g ∧ f.CatchesNoMore g) ∧
        (∀ w, ¬m.Delivers later k w) ∧
        ∀ i w exec stack, m.Active later i (.finished (.error (.exception w)) exec) stack →
          (∀ j f, k < j → exec.context.frame? j = some f → f.handler = none) →
          (∃ j < k, ∃ next, m.step later = .running next ∧
            Context.Caught exec.context j w next.exec.context) ∨
          ∃ after, run.EndsAs m after ∧ after.state = .faulted (.unhandled w) := by
  obtain ⟨hindex, hpending⟩ := hdelivers.caught hcaught
  obtain ⟨second, hstep, hsuspended, hcontext⟩ := step_of_getException hm hfetch hname hslot
  rw [hpending, Option.getD_some] at hcontext
  have hcurrent : second.exec.context.currentIndex = k := by
    rw [hcontext]
    exact hindex
  have hnone : second.exec.context.current.handler = none := by
    rw [hcontext]
    rfl
  have hheld : second.exec.context.current.pending = some v := by
    rw [hcontext]
    exact hpending
  have hdisarmed : second.Disarmed k v :=
    ⟨_, hcurrent ▸ Context.frame?_currentIndex _, hnone, .inl hheld⟩
  have hsecond : m.Reaches run second := (hthrower.next hcaught).next hstep
  refine ⟨second, hstep, hsuspended, hcontext, ?_, hcurrent, hnone, fun later hlater => ?_⟩
  · rw [hcontext, Context.resolve_store_self]
  · obtain ⟨hreached, f, hf, hfnone, hfheld⟩ :=
      disarmed_of_steps hm hrun hlater hsecond hdisarmed
    have hn := hreached.nested hm hrun
    have hwrites := hreached.allWrite hm hrun
    have hdisarmed : later.Disarmed k v := ⟨f, hf, hfnone, hfheld⟩
    refine ⟨⟨f, hf, hfnone, hfheld, fun next hnext => ?_⟩, ?_, ?_⟩
    · exact exists_catchesNoMore_of_step hm hn hwrites hf hfnone hnext
    · exact not_delivers_of_disarmed hm hwrites hdisarmed
    · intro i w exec stack hactive habove
      exact throws_past_disarmed hm hrun hreached hdisarmed hactive habove

/-- Two scopes that catch. The code that the inner one catches with throws as well. -/
def throwFromCatch : Machine :=
  Reference.machine #[32, 23, 32, 15, 26, 3, 37, 34, 0, 26, 5, 34, 32, 37]

theorem disarmed_frame_never_catches_throwFromCatch :
    ∃ thrower first second, throwFromCatch.Reaches throwFromCatch.start thrower ∧
      throwFromCatch.Delivers thrower 2 (.int 1) ∧ throwFromCatch.step thrower = .running first ∧
      throwFromCatch.step first = .running second ∧
      second.exec.context.resolve 0 = some (.int 1) ∧
      (∀ w, ¬throwFromCatch.Delivers second 2 w) ∧
      ∃ i exec stack,
        throwFromCatch.Active second i (.finished (.error (.exception (.int 2))) exec) stack ∧
        ((∃ j < 2, ∃ next, throwFromCatch.step second = .running next ∧
            Context.Caught exec.context j (.int 2) next.exec.context) ∨
          ∃ after, throwFromCatch.start.EndsAs throwFromCatch after ∧
            after.state = .faulted (.unhandled (.int 2))) := by
  have hthrow : ∃ thrower,
      throwFromCatch.iterate 2 ⟨throwFromCatch.start.exec, []⟩ = .running thrower ∧
      ∃ i handler begun exec recovered after,
        throwFromCatch.fetch thrower.base thrower.exec = (.ok (i, handler), begun) ∧
        handler throwFromCatch.toSetup i.toSite begun =
          .finished (.error (.exception (.int 1))) exec ∧
        exec.context.raise (.int 1) i.base = (.ok recovered, after) ∧ recovered.frame = 2 ∧
      ∃ first, throwFromCatch.step thrower = .running first ∧
      ∃ i handler begun, throwFromCatch.fetch first.base first.exec = (.ok (i, handler), begun) ∧
        i.name = "GET_EXCEPTION" ∧
        Decoder.slot throwFromCatch.program begun.context.ip = .ok (0, 9) ∧
      ∃ second, throwFromCatch.step first = .running second ∧
      ∃ i handler begun exec,
        throwFromCatch.fetch second.base second.exec = (.ok (i, handler), begun) ∧
        handler throwFromCatch.toSetup i.toSite begun =
          .finished (.error (.exception (.int 2))) exec ∧ exec.context.depth = 3 := by
    conv in throwFromCatch.iterate _ _ => cbv
    exact ⟨_, rfl, _, _, _, _, _, _, rfl, rfl, rfl, rfl, _, rfl, _, _, _, rfl, rfl, rfl, _, rfl,
      _, _, _, _, rfl, rfl, rfl⟩
  obtain ⟨thrower, hreached, i, handler, begun, exec, recovered, after, hfetch, hhandler, hraise,
    hframe, first, hfirst, _, _, _, hfetched, hname, hslot, second, hsecond, j, rethrow, rebegun,
    thrown, hrefetch, hrethrow, hdepth⟩ := hthrow
  have hactive : throwFromCatch.Active thrower i _ thrower.suspended := .started hfetch
  rw [hhandler] at hactive
  have hdelivers : throwFromCatch.Delivers thrower 2 (.int 1) :=
    ⟨i, exec, _, recovered, after, hactive, hraise, hframe⟩
  obtain ⟨second', hsecond', -, -, hresolve, -, -, hlater⟩ :=
    disarmed_frame_never_catches (Reference.standard_machine _) (fresh_start _ _ _)
      ⟨2, hreached⟩ hdelivers hfirst hfetched hname hslot
  obtain rfl : second' = second := Status.running.inj (hsecond'.symm.trans hsecond)
  obtain ⟨-, hnever, hpast⟩ := hlater second' .refl
  have hagain : throwFromCatch.Active second' j _ second'.suspended := .started hrefetch
  rw [hrethrow] at hagain
  refine ⟨thrower, first, second', ⟨2, hreached⟩, hdelivers, hfirst, hsecond, hresolve, hnever, j,
    thrown, _, hagain, hpast j _ thrown _ hagain fun k f hk hf => ?_⟩
  have hlt := Context.lt_depth_of_frame? hf
  omega

end Machine

end TaggedBytecode
