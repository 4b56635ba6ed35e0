import TaggedBytecode.Proofs.Machine.Nesting

/-!
# Unwinding

An exception leaves one call after the other until a frame catches it: each call offers it to
its own frames only, releases them, and hands it to the instruction that made the call. All of
this together is **one search** over the frames of the whole run: the topmost armed frame
catches, whichever call it belongs to, and the calls above it are gone.

## Main definitions

* `Machine.Unwound` — where an exception ends, given the context at the throw.

## Main results

* `Machine.unwound_of_stacked` — an exception carried through suspended instructions.
* `Machine.Reaches.linked` — the frames of a run are linked.
* `Machine.exception_unwinds_flat` — nested unwinding is a single delivery.
-/

namespace TaggedBytecode

open Relation (ReflTransGen)

namespace Context

variable {ctx : Context}

/-- Every armed frame of a context may catch what has no floor. -/
theorem Linked.catcher_zero_eq_some_iff (h : ctx.Linked) {index : Nat} :
    ctx.catcher 0 = some index ↔
      IsGreatest {i | ∃ f, ctx.frame? i = some f ∧ f.isArmed = true} index := by
  simp [h.catcher_eq_some_iff]

/-- With a catcher from the floor on, the floor does not matter. -/
theorem Linked.catcher_of_catcher (h : ctx.Linked) {floor index : Nat}
    (hcatcher : ctx.catcher floor = some index) : ctx.catcher 0 = some index := by
  obtain ⟨⟨hfloor, harmed⟩, hupper⟩ := h.catcher_eq_some_iff.mp hcatcher
  refine h.catcher_zero_eq_some_iff.mpr ⟨harmed, fun i hi => ?_⟩
  by_cases hle : floor ≤ i
  · exact hupper ⟨hle, hi⟩
  · omega

/-- Without a catcher from the floor on, a catcher lies below the floor. -/
theorem Linked.catcher_lt (h : ctx.Linked) {floor index : Nat} (hnone : ctx.catcher floor = none)
    (hcatcher : ctx.catcher 0 = some index) : index < floor := by
  obtain ⟨f, hf, harmed⟩ := (h.catcher_zero_eq_some_iff.mp hcatcher).1
  by_contra hge
  have := h.catcher_eq_none_iff.mp hnone index f hf (Nat.le_of_not_lt hge)
  simp [this] at harmed

/-- Releasing frames of which none is armed leaves the catcher. -/
theorem Linked.catcher_truncate (h : ctx.Linked) {depth : Nat} (hpos : 0 < depth)
    (hnone : ctx.catcher depth = none) : (ctx.truncate depth).2.catcher 0 = ctx.catcher 0 := by
  have hmax : max depth 1 = depth := Nat.max_eq_left hpos
  have hframes : {i | ∃ f, (ctx.truncate depth).2.frame? i = some f ∧ f.isArmed = true} =
      {i | ∃ f, ctx.frame? i = some f ∧ f.isArmed = true} := by
    ext i
    simp only [frame?_truncate, hmax, Set.mem_ofPred_eq]
    by_cases hi : i < depth
    · simp [hi]
    · simp only [hi, if_false, reduceCtorEq, false_and, exists_false, false_iff, not_exists,
        not_and, Bool.not_eq_true]
      exact fun f hf => h.catcher_eq_none_iff.mp hnone i f hf (Nat.le_of_not_lt hi)
  ext index
  rw [(h.truncate depth).catcher_zero_eq_some_iff, h.catcher_zero_eq_some_iff, hframes]

/-- A catch below released frames is a catch in the context before their release. -/
theorem Caught.of_truncate {depth index : Nat} {exception : Val} {after : Context}
    (h : Caught (ctx.truncate depth).2 index exception after) (hindex : index < depth) :
    Caught ctx index exception after := by
  have hkept : ∀ i ≤ index, (ctx.truncate depth).2.frame? i = ctx.frame? i :=
    fun i hi => frame?_truncate_of_lt (Nat.lt_of_le_of_lt hi hindex)
  obtain ⟨f, target, hf, ht, hcaught⟩ := h.catcher
  refine ⟨h.depth, h.programLength.trans (programLength_truncate ctx depth), fun i hi => ?_,
    f, target, ?_, ht, hcaught⟩
  · rw [h.below i hi, hkept i (Nat.le_of_lt hi)]
  · rw [← hf, hkept index (Nat.le_refl _)]

/-- What a catch leads to is what raising leads to. -/
theorem Caught.eq_raise {index : Nat} {exception : Val} {after : Context}
    (h : Caught ctx index exception after) (hcatcher : ctx.catcher 0 = some index) :
    after = (ctx.raise exception 0).2 := by
  obtain ⟨recovered, raised, hraise, hcaught⟩ := raise_of_catcher hcatcher exception
  rw [hraise]
  exact h.unique hcaught rfl fun _ _ => rfl

end Context

/-! ### Links in a run -/

theorem Move.linked {limit : Nat} {a b : MachineState} (h : Move a b) (ha : a.Nested limit)
    (hlinked : a.exec.context.Linked) : b.exec.context.Linked := by
  cases h with
  | work hab => exact hab.context.linked hlinked
  | leave =>
      rw [ha.stacked.head.context_closed]
      exact hlinked.truncate _

theorem Moves.linked {limit : Nat} {a b : MachineState} (h : ReflTransGen Move a b)
    (ha : a.Nested limit) (hlinked : a.exec.context.Linked) : b.exec.context.Linked := by
  induction h with
  | refl => exact hlinked
  | tail hmoves hmove ih => exact hmove.linked (Moves.nested hmoves ha) ih

theorem Enter.linked {limit : Nat} {a b : MachineState} (h : Enter limit a b)
    (hlinked : a.exec.context.Linked) : b.exec.context.Linked := by
  cases h with
  | @call _ _ _ _ args _ _ hopen =>
      obtain ⟨f, -, hparent, hpush⟩ := Context.entered_eq_push hopen args
      exact (congrArg Context.Linked hpush).mpr (hlinked.push hparent)

namespace Machine

variable {m : Machine} {limit : Nat} {stack : List Suspension}

/-- An exception that a frame of the call catches stays in the call. -/
theorem turn_of_catcher {i : Instruction} {exec : Execution} {index : Nat}
    (h : exec.context.catcher i.base = some index) (v : Val) :
    ∃ after, turn i (.finished (.error (.exception v)) exec) = .goesOn after ∧
      after.calls = exec.calls ∧ Context.Caught exec.context index v after.context := by
  obtain ⟨recovered, caught, hraise, hcaught⟩ := Context.raise_of_catcher h v
  refine ⟨{ report i (.error (.exception v)) exec with context := caught }, ?_, rfl, hcaught⟩
  have hraise' : (report i (.error (.exception v)) exec).context.raise v i.base =
      (.ok recovered, caught) := hraise
  simp only [turn, settle, hraise']

/-- An exception that no frame of the call catches leaves the call. -/
theorem turn_of_no_catcher {i : Instruction} {exec : Execution}
    (h : exec.context.catcher i.base = none) (v : Val) :
    turn i (.finished (.error (.exception v)) exec) =
      .leaves (.threw (.exception v)) (release i.base (report i (.error (.exception v)) exec)) := by
  have hraise : (report i (.error (.exception v)) exec).context.raise v i.base =
      (.error v, exec.context) := Context.raise_of_no_catcher h v
  simp only [turn, settle, hraise]
  rfl

/-- Where an exception ends that is thrown above some suspended instructions, given the
context at the throw. -/
inductive Unwound (stack : List Suspension) (context : Context) (v : Val) : Status → Prop
  | caught {index : Nat} {loop : List Suspension} {after : Execution} :
      context.catcher 0 = some index → loop <:+ stack → callBase loop ≤ index →
      (∀ inner, inner <:+ stack → loop.length < inner.length → index < callBase inner) →
      after.calls = loop.length → Context.Caught context index v after.context →
      Unwound stack context v (.running ⟨after, loop⟩)
  | uncaught {after : Execution} : context.catcher 0 = none →
      Unwound stack context v (.stopped after (.threw (.exception v)))

/-- An exception that no frame of a call catches ends where it ends when the call is left. -/
theorem Unwound.cons {s : Suspension} {context : Context} {v : Val} {status : Status}
    (hlinked : context.Linked) (hpos : 0 < s.base) (hnone : context.catcher s.base = none)
    (h : Unwound stack (context.truncate s.base).2 v status) :
    Unwound (s :: stack) context v status := by
  cases h with
  | uncaught hnone' => exact .uncaught (hlinked.catcher_truncate hpos hnone ▸ hnone')
  | caught hcatcher hloop hbase hinner hcalls hcaught =>
      rw [hlinked.catcher_truncate hpos hnone] at hcatcher
      have hlt := hlinked.catcher_lt hnone hcatcher
      refine .caught hcatcher (hloop.trans (List.suffix_cons _ _)) hbase
        (fun inner hsuffix hlength => ?_) hcalls (hcaught.of_truncate hlt)
      rcases List.suffix_cons_iff.mp hsuffix with rfl | htail
      · exact hlt
      · exact hinner inner htail hlength

/-- An exception that the innermost call catches does not reach the suspended instructions. -/
theorem Unwound.of_catcher {i : Instruction} (hi : i.base = callBase stack) {exec : Execution}
    (hlinked : exec.context.Linked) (hcalls : exec.calls = stack.length) {index : Nat}
    (hcatcher : exec.context.catcher i.base = some index) (v : Val) :
    Unwound stack exec.context v
      (carry (turn i (.finished (.error (.exception v)) exec)) stack) := by
  obtain ⟨after, hturn, hafter, hcaught⟩ := turn_of_catcher hcatcher v
  rw [hturn, carry]
  refine .caught (hlinked.catcher_of_catcher hcatcher) (List.suffix_refl _)
    (hi ▸ (Context.catcher_sound hcatcher).1) (fun inner hinner hlength => ?_)
    (hafter.trans hcalls) hcaught
  exact absurd hinner.length_le (Nat.not_le_of_lt hlength)

/-- **An exception carried through suspended instructions** is caught in the innermost call
that has the catcher among its frames, or it ends the run. Induction on the suspended
instructions; the catcher stays the same while unarmed frames are released. -/
theorem unwound_of_stacked (hstack : Stacked limit stack) {i : Instruction}
    (hi : i.base = callBase stack) {exec : Execution} (hlinked : exec.context.Linked)
    (hlt : callBase stack < exec.context.depth) (hcalls : exec.calls = stack.length) (v : Val) :
    Unwound stack exec.context v
      (carry (turn i (.finished (.error (.exception v)) exec)) stack) := by
  induction hstack generalizing i exec with
  | nil =>
      cases hcatcher : exec.context.catcher i.base with
      | some index => exact .of_catcher hi hlinked hcalls hcatcher v
      | none =>
          rw [turn_of_no_catcher hcatcher, carry]
          rw [hi] at hcatcher
          exact .uncaught hcatcher
  | @cons s stack hs _ ih =>
      cases hcatcher : exec.context.catcher i.base with
      | some index => exact .of_catcher hi hlinked hcalls hcatcher v
      | none =>
          -- The caller throws the exception again, from the frames that remain to it.
          rw [turn_of_no_catcher hcatcher, carry, Exit.reply, hs.error]
          rw [hi] at hcatcher ⊢
          generalize hreported : report i (.error (.exception v)) exec = reported
          have hcontext : reported.context = exec.context := hreported ▸ rfl
          have hcalls' : reported.calls = stack.length + 1 := hreported ▸ hcalls
          have hpos : 0 < s.base := Nat.lt_of_le_of_lt (Nat.zero_le _) hs.base_lt
          have hclosed := hs.context_closed reported
          have hdepth := hs.depth_closed (hcontext ▸ hlt : s.base < reported.context.depth)
          rw [hcontext] at hclosed
          refine .cons hlinked hpos hcatcher ?_
          rw [← hclosed]
          refine ih hs.instruction_base ?_ ?_ ?_
          · rw [hclosed]
            exact hlinked.truncate _
          · rw [hdepth]
            exact hs.base_lt
          · simp only [Execution.closeCall, calls_release, hcalls', Nat.add_sub_cancel]

/-! ### Exceptions in a run -/

variable {run : Run} {state : MachineState}

/-- At every fetch of a run the frames are linked. -/
theorem Reaches.linked (hm : m.Standard) (hrun : run.Fresh) (h : m.Reaches run state) :
    state.exec.context.Linked :=
  h.preserved (P := fun state => state.exec.context.Linked) hm hrun hrun.linked
    (fun _ hn ha => hn.confined_begun.linked ha) (fun _ _ hn ha hmove => hmove.linked hn ha)
    fun _ _ _ ha henter => henter.linked ha

/-- An exception that an active instruction throws ends where the step does. -/
theorem Active.unwound (hm : m.Standard) (hn : state.Nested m.maxCallDepth)
    (hlinked : state.exec.context.Linked) {i : Instruction} {exec : Execution} {v : Val}
    (h : m.Active state i (.finished (.error (.exception v)) exec) stack) :
    exec.context.Linked ∧ Unwound stack exec.context v (m.step state) := by
  obtain ⟨hbase, ⟨a, hmoves, hlawful⟩ | ⟨exit, left, hturn, hfinal, -⟩⟩ := h.lawful hm hn
  · have hnested := Moves.nested hmoves hn.begun
    have hbegun := hn.confined_begun.linked hlinked
    cases hlawful with
    | finished _ hwork =>
        have hexec := hwork.context.linked (Moves.linked hmoves hn.begun hbegun)
        rw [h.step_eq]
        exact ⟨hexec, unwound_of_stacked hnested.stacked hbase hexec hwork.context.base_lt
          (hwork.calls.trans hnested.calls) v⟩
  · cases hcatcher : exec.context.catcher i.base with
    | some index =>
        obtain ⟨after, hgoes, -⟩ := turn_of_catcher hcatcher v
        rw [hgoes] at hturn
        cases hturn
    | none =>
        rw [turn_of_no_catcher hcatcher, Turn.leaves.injEq] at hturn
        exact absurd hfinal (hturn.1 ▸ not_false)

/-- **Nested unwinding is a single delivery.** If some frame is armed when an active
instruction throws an exception, execution goes on in the innermost call that has the topmost
armed frame, with every call above it left and the frames as one delivery over the whole run
leaves them. If none is armed, the exception ends the run. -/
theorem exception_unwinds_flat (hm : m.Standard) (hrun : run.Fresh) (hstate : m.Reaches run state)
    {i : Instruction} {exec : Execution} {v : Val}
    (hthrow : m.Active state i (.finished (.error (.exception v)) exec) stack) :
    (∀ index, IsGreatest {k | ∃ f, exec.context.frame? k = some f ∧ f.isArmed = true} index →
      ∃ loop after, m.step state = .running ⟨after, loop⟩ ∧ loop <:+ stack ∧
        callBase loop ≤ index ∧
        (∀ inner, inner <:+ stack → loop.length < inner.length → index < callBase inner) ∧
        after.calls = loop.length ∧ after.context = (exec.context.raise v 0).2 ∧
        Context.Caught exec.context index v after.context) ∧
    ((∀ k f, exec.context.frame? k = some f → f.isArmed = false) →
      ∃ after, run.EndsAs m after ∧ after.state = .faulted (.unhandled v)) := by
  obtain ⟨hlinked, hunwound⟩ :=
    hthrow.unwound hm (hstate.nested hm hrun) (hstate.linked hm hrun)
  generalize hstatus : m.step state = status at hunwound
  constructor
  · intro index hgreatest
    have hindex := hlinked.catcher_zero_eq_some_iff.mpr hgreatest
    cases hunwound with
    | uncaught hnone => simp [hnone] at hindex
    | caught hcatcher hloop hbase hinner hcalls hcaught =>
        obtain rfl := Option.some.inj (hcatcher.symm.trans hindex)
        exact ⟨_, _, rfl, hloop, hbase, hinner, hcalls, hcaught.eq_raise hcatcher, hcaught⟩
  · intro hunarmed
    cases hunwound with
    | caught hcatcher =>
        obtain ⟨f, hf, harmed⟩ := (Context.catcher_sound hcatcher).2
        simp [hunarmed _ f hf] at harmed
    | @uncaught left =>
        obtain ⟨n, hn⟩ := hstate
        refine ⟨run.ofStatus (.stopped left (.threw (.exception v))), ⟨nofun, n + 1, ?_⟩, rfl⟩
        rw [iterate_succ_of_running hn, hstatus]

/-- A scope that catches, a call inside it, and a callee that throws. -/
def throwInCall : Machine :=
  Reference.machine #[32, 17, 38, 13, 0, 37, 26, 19, 37]

theorem exception_unwinds_flat_throwInCall :
    ∃ state i exec stack, throwInCall.Reaches throwInCall.start state ∧
      throwInCall.Active state i (.finished (.error (.exception (.int 9))) exec) stack ∧
      stack.length = 1 ∧ ∃ after, throwInCall.step state = .running ⟨after, []⟩ ∧
        Context.Caught exec.context 1 (.int 9) after.context := by
  have hthrow : ∃ state, throwInCall.iterate 2 ⟨throwInCall.start.exec, []⟩ = .running state ∧
      state.suspended.length = 1 ∧ callBase state.suspended = 2 ∧
      ∃ i handler begun exec scope callee,
        throwInCall.fetch state.base state.exec = (.ok (i, handler), begun) ∧
        handler throwInCall.toSetup i.toSite begun =
          .finished (.error (.exception (.int 9))) exec ∧ exec.context.depth = 3 ∧
        exec.context.frame? 1 = some scope ∧ scope.isArmed = true ∧
        exec.context.frame? 2 = some callee ∧ callee.isArmed = false := by
    conv in throwInCall.iterate _ _ => cbv
    exact ⟨_, rfl, rfl, rfl, _, _, _, _, _, _, rfl, rfl, rfl, rfl, rfl, rfl, rfl⟩
  obtain ⟨state, hn, hlength, hbase, i, handler, begun, exec, scope, callee, hfetch, hhandler,
    hdepth, hscope, harmed, hcallee, hunarmed⟩ := hthrow
  have hactive : throwInCall.Active state i _ state.suspended := .started hfetch
  rw [hhandler] at hactive
  have hgreatest : IsGreatest {k | ∃ f, exec.context.frame? k = some f ∧ f.isArmed = true} 1 := by
    refine ⟨⟨scope, hscope, harmed⟩, ?_⟩
    rintro k ⟨f, hf, hf'⟩
    have hk := Context.lt_depth_of_frame? hf
    by_contra hgt
    obtain rfl : k = 2 := by omega
    obtain rfl : callee = f := Option.some.inj (hcallee.symm.trans hf)
    simp [hunarmed] at hf'
  obtain ⟨loop, after, hstep, hloop, hle, -, -, -, hcaught⟩ :=
    (exception_unwinds_flat (Reference.standard_machine _) (fresh_start _ _ _) ⟨2, hn⟩
      hactive).1 1 hgreatest
  obtain rfl : loop = [] := by
    rcases loop with - | ⟨s, rest⟩
    · rfl
    · have heq := hloop.eq_of_length_le (by simp [hlength])
      rw [heq, hbase] at hle
      omega
  exact ⟨state, i, exec, state.suspended, ⟨2, hn⟩, hactive, hlength, after, hstep, hcaught⟩

end Machine

end TaggedBytecode
