import TaggedBytecode.Proofs.Machine.Nesting

/-!
# Calls

A handler that **calls** bytecode is suspended until the callee is left, however many steps
and nested calls that takes. Looked at from the caller, all of it is one operation that takes
the execution before the call to a reply and the execution after it (`Machine.CallEnds`).
Whatever the callee does, the caller's frames are alike afterwards.

## Main definitions

* `Machine.Leaves` — a step that leaves the call above some suspended instructions.
* `Machine.CallEnds` — a call from its beginning to its end.

## Main results

* `Machine.Active.exists_call` — every wait is a call.
* `Machine.alikeBelow_of_within` — steps within a call keep the callers' frames alike.
* `Machine.call_preserves_caller` — a call cannot disturb its caller's frames.
-/

namespace TaggedBytecode

open Relation (ReflTransGen)

namespace Machine

/-- The step from a state leaves the call above some suspended instructions. -/
def Leaves (m : Machine) (state : MachineState) (rest : List Suspension) (exit : Exit)
    (exec : Execution) : Prop :=
  ∃ i p, m.Active state i p rest ∧ turn i p = .leaves exit exec

/-- A step that does not leave the call above some suspended instructions. -/
def StepsWithin (m : Machine) (rest : List Suspension) (a b : MachineState) : Prop :=
  m.step a = .running b ∧ ∀ exit exec, ¬m.Leaves a rest exit exec

/-- How the call that an instruction makes above some suspended instructions ends, if the
instruction goes on with `next`. -/
inductive CallEnds (m : Machine) (i : Instruction) (next : Val → Execution → Progress Flow)
    (stack : List Suspension) (entry : Nat) (args : List Val) (before : Execution) :
    Except Thrown Val → Execution → Prop
  /-- The call is refused. -/
  | refused {reply : Except Thrown Val} {after : Execution} :
      HandlerM.call entry args m.toSetup i.toSite before = .finished reply after →
      CallEnds m i next stack entry args before reply after
  /-- The callee runs and is left. -/
  | left {base : Nat} {opened exec after : Execution} {last : MachineState} {exit : Exit}
      {resume : Except Thrown Val → Execution → Progress Val} {rest : List Suspension}
      {reply : Except Thrown Val} :
      HandlerM.call entry args m.toSetup i.toSite before = .suspended base opened resume →
      rest = ⟨i, base, fun reply exec => (resume reply exec).bind next⟩ :: stack →
      ReflTransGen (m.StepsWithin rest) ⟨opened, rest⟩ last →
      m.Leaves last rest exit exec → resume exit.reply exec = .finished reply after →
      CallEnds m i next stack entry args before reply after

end Machine

namespace HandlerM

variable {entry : Nat} {args : List Val} {setup : Setup} {site : Site} {before : Execution}

/-- A call that is refused changes nothing. -/
theorem call_eq_finished {reply : Except Thrown Val} {after : Execution}
    (h : call entry args setup site before = .finished reply after) : after = before := by
  rw [call] at h
  split at h
  · exact (Progress.finished.inj h).2.symm
  · split at h
    · exact (Progress.finished.inj h).2.symm
    · cases h

/-- A call that is not refused puts a frame above those of the caller. Whatever comes back,
the call is closed. -/
theorem call_eq_suspended {base : Nat} {opened : Execution}
    {resume : Except Thrown Val → Execution → Progress Val}
    (h : call entry args setup site before = .suspended base opened resume) :
    base = before.context.depth ∧
      (∃ context, before.context.pushCall entry = .ok context ∧
        opened = before.enterCall context args) ∧
      resume = fun reply exec => .finished reply exec.closeCall := by
  rw [call] at h
  split at h
  · cases h
  · split at h
    · cases h
    · rename_i context hopen
      obtain ⟨rfl, rfl, rfl⟩ := Progress.suspended.inj h
      exact ⟨rfl, ⟨context, hopen, rfl⟩, rfl⟩

end HandlerM

/-- What no caller can stop is neither a value nor an exception. -/
theorem Exit.Final.reply {exit : Exit} (h : exit.Final) :
    (∀ value, exit.reply ≠ .ok value) ∧ ∀ value, exit.reply ≠ .error (.exception value) := by
  match exit, h with
  | .halted, _ => exact ⟨nofun, nofun⟩
  | .threw (.fault fault), _ => exact ⟨nofun, nofun⟩

/-! ### The callers' frames -/

theorem Move.suffix {a b : MachineState} (h : Move a b) : b.suspended <:+ a.suspended := by
  cases h with
  | work => exact List.suffix_refl _
  | leave => exact List.suffix_cons _ _

/-- Moves that leave no call below keep the frames there alike. -/
theorem Moves.alikeBelow {limit : Nat} {a b : MachineState} {rest : List Suspension}
    (h : ReflTransGen Move a b) (ha : a.Nested limit) (hrest : rest <:+ b.suspended) :
    a.exec.context.AlikeBelow (callBase rest) b.exec.context := by
  induction h with
  | refl => exact Context.alikeBelow_of_eq fun _ _ => rfl
  | tail hmoves hmove ih =>
      have hmid := Moves.nested hmoves ha
      refine (ih (hrest.trans hmove.suffix)).trans ?_
      have hle := (hmove.nested hmid).stacked.callBase_le hrest
      cases hmove with
      | work hab => exact hab.context.below.mono hle
      | @leave a s stack =>
          have hfits := hmid.stacked.head
          refine Context.alikeBelow_of_eq fun i hi => ?_
          have hlt : i < s.base :=
            Nat.lt_of_lt_of_le hi (Nat.le_trans hle (Nat.le_of_lt hfits.base_lt))
          rw [hfits.context_closed, Context.frame?_truncate_of_lt hlt]

theorem Enter.alikeBelow {limit base : Nat} {a b : MachineState} (h : Enter limit a b)
    (hbase : base ≤ a.exec.context.depth) :
    a.exec.context.AlikeBelow base b.exec.context := by
  cases h with
  | @call _ _ _ _ args _ _ hopen => exact (Context.alikeBelow_pushCall hopen args).mono hbase

namespace Machine

variable {m : Machine} {run : Run} {state : MachineState} {i : Instruction}
  {p : Progress Flow} {stack rest : List Suspension}

/-- An active instruction is within a call, or an active instruction left that call. -/
theorem Active.within_or_leaves (h : m.Active state i p stack) (hrest : rest <:+ state.suspended) :
    rest <:+ stack ∨ ∃ exit exec, m.Leaves state rest exit exec := by
  induction h with
  | started => exact .inl hrest
  | resumed hactive hturn ih =>
      rcases ih with hwithin | hleaves
      · rcases List.suffix_cons_iff.mp hwithin with rfl | htail
        · exact .inr ⟨_, _, _, _, hactive, hturn⟩
        · exact .inl htail
      · exact .inr hleaves

/-- A step within a call keeps the frames below it alike. -/
theorem alikeBelow_of_stepsWithin (hm : m.Standard) {a b : MachineState}
    (ha : a.Nested m.maxCallDepth) (hrest : rest <:+ a.suspended) (h : m.StepsWithin rest a b) :
    rest <:+ b.suspended ∧ a.exec.context.AlikeBelow (callBase rest) b.exec.context := by
  obtain ⟨-, mid, i, p, hactive, hmoves, hnext⟩ := step_running hm ha h.1
  have hwithin : rest <:+ mid.suspended :=
    (hactive.within_or_leaves hrest).resolve_right fun ⟨exit, exec, hleaves⟩ =>
      h.2 exit exec hleaves
  have hmid := Moves.nested hmoves ha.begun
  have hle := hmid.stacked.callBase_le hwithin
  have hbegun := ha.confined_begun.below.mono (ha.stacked.callBase_le hrest)
  have hmoved := hbegun.trans (Moves.alikeBelow hmoves ha.begun hwithin)
  rcases hnext with rfl | henter
  · exact ⟨hwithin, hmoved⟩
  · have hdepth := Nat.le_of_lt (Nat.lt_of_le_of_lt hle hmid.base_lt)
    refine ⟨?_, hmoved.trans (henter.alikeBelow hdepth)⟩
    cases henter with
    | call => exact hwithin.trans (List.suffix_cons _ _)

/-- **Steps within a call keep the callers' frames alike.** -/
theorem alikeBelow_of_within (hm : m.Standard) {a b : MachineState}
    (ha : a.Nested m.maxCallDepth) (hrest : rest <:+ a.suspended)
    (h : ReflTransGen (m.StepsWithin rest) a b) :
    b.Nested m.maxCallDepth ∧ rest <:+ b.suspended ∧
      a.exec.context.AlikeBelow (callBase rest) b.exec.context := by
  induction h with
  | refl => exact ⟨ha, hrest, Context.alikeBelow_of_eq fun _ _ => rfl⟩
  | tail _ hstep ih =>
      obtain ⟨hb, hsuffix, halike⟩ := ih
      obtain ⟨hsuffix', halike'⟩ := alikeBelow_of_stepsWithin hm hb hsuffix hstep
      exact ⟨nested_of_step hm hb hstep.1, hsuffix', halike.trans halike'⟩

/-- **Every wait is a call**: an active instruction that waits for a callee has called it and
goes on with what the call gives. -/
theorem Active.exists_call (hm : m.Standard) (hn : state.Nested m.maxCallDepth) {base : Nat}
    {opened : Execution} {resume : Except Thrown Val → Execution → Progress Flow}
    (h : m.Active state i (.suspended base opened resume) stack) :
    ∃ entry args before next, .suspended base opened resume =
      (HandlerM.call entry args m.toSetup i.toSite before).bind next := by
  obtain ⟨-, ⟨a, -, hlawful⟩ | ⟨exit, exec, hturn, -⟩⟩ := h.lawful hm hn
  · cases hlawful with
    | @suspended _ before entry args _ next _ hlimit hopen =>
        refine ⟨entry, args, before, next, ?_⟩
        rw [HandlerM.call, if_neg (Nat.not_le_of_lt hlimit), hopen]
        rfl
  · cases hturn

/-- The instruction that is active above all suspended ones is the one that was fetched. -/
theorem Active.eq_fetched (h : m.Active state i p state.suspended) :
    ∃ handler exec, m.fetch state.base state.exec = (.ok (i, handler), exec) ∧
      p = handler m.toSetup i.toSite exec := by
  generalize hstack : state.suspended = stack at h
  cases h with
  | started hfetch => exact ⟨_, _, hfetch, rfl⟩
  | resumed hactive =>
      have hle := hactive.suffix.length_le
      rw [hstack, List.length_cons] at hle
      omega

/-- An instruction after which its call goes on leaves no call. -/
theorem stepsWithin_of_goesOn {handler : Handler} {exec after : Execution}
    (hfetch : m.fetch state.base state.exec = (.ok (i, handler), exec))
    (hturn : turn i (handler m.toSetup i.toSite exec) = .goesOn after) :
    m.StepsWithin state.suspended state ⟨after, state.suspended⟩ := by
  have hactive : m.Active state i _ state.suspended := .started hfetch
  refine ⟨by rw [hactive.step_eq, hturn, carry], ?_⟩
  rintro exit left ⟨j, p, hleaving, hleaves⟩
  obtain ⟨handler', exec', hfetch', rfl⟩ := hleaving.eq_fetched
  rw [hfetch] at hfetch'
  obtain ⟨⟨rfl, rfl⟩, rfl⟩ : (i = j ∧ handler = handler') ∧ exec = exec' := by
    simpa using hfetch'
  rw [hturn] at hleaves
  cases hleaves

/-- A call that is left with a value or with an exception leaves just the frames below its
base, and those are alike. -/
theorem Leaves.closed (hm : m.Standard) (hn : state.Nested m.maxCallDepth) {s : Suspension}
    (hrest : s :: stack <:+ state.suspended) {exit : Exit} {exec : Execution}
    (h : m.Leaves state (s :: stack) exit exec) (hexit : ¬exit.Final) :
    exec.context.depth = s.base ∧ exec.calls = stack.length + 1 ∧
      state.exec.context.AlikeBelow s.base exec.context := by
  obtain ⟨i, p, hactive, hturn⟩ := h
  obtain ⟨hbase, ⟨a, hmoves, hlawful⟩ | ⟨exit', exec', hturn', hfinal, -⟩⟩ := hactive.lawful hm hn
  · have hnested := Moves.nested hmoves hn.begun
    have hlawful := turn_lawful hbase hlawful
    rw [hturn] at hlawful
    cases hlawful with
    | ends hfinal => exact absurd hfinal hexit
    | @leaves _ b _ hab =>
        have hfits := hnested.stacked.head
        have hcontext : (release s.base b).context = (b.context.truncate s.base).2 :=
          hfits.context_closed b
        have hleft : Move ⟨a, s :: stack⟩ ⟨b, s :: stack⟩ := .work hab
        have hbegun := hn.confined_begun.below.mono (hn.stacked.callBase_le hrest)
        have hmoved := hbegun.trans
          (Moves.alikeBelow (hmoves.tail hleft) hn.begun (List.suffix_refl _))
        refine ⟨hfits.depth_closed hab.context.base_lt, ?_, ?_⟩
        · exact (calls_release _ _).trans (hab.calls.trans hnested.calls)
        · refine hmoved.trans (Context.alikeBelow_of_eq fun i hi => ?_)
          have hi' : i < s.base := hi
          simp only [callBase, hcontext, Context.frame?_truncate_of_lt hi']
  · rw [hturn, Turn.leaves.injEq] at hturn'
    exact absurd hfinal (hturn'.1 ▸ hexit)

/-- **A call cannot disturb its caller's frames.** If a call returns a value or throws an
exception, the caller has the frames and the count of open calls that it had before, and every
frame differs at most in the values of slots that it bound before. -/
theorem call_preserves_caller (hm : m.Standard) (hrun : run.Fresh)
    (hstate : m.Reaches run state) {entry : Nat} {args : List Val} {before after : Execution}
    {next : Val → Execution → Progress Flow} {reply : Except Thrown Val}
    (hcall : m.Active state i
      ((HandlerM.call entry args m.toSetup i.toSite before).bind next) stack)
    (hends : m.CallEnds i next stack entry args before reply after)
    (hreply : (∃ value, reply = .ok value) ∨ ∃ value, reply = .error (.exception value)) :
    after.context.depth = before.context.depth ∧ after.calls = before.calls ∧
      ∀ k f, before.context.frame? k = some f →
        ∃ g, after.context.frame? k = some g ∧ f.Alike g := by
  cases hends with
  | refused hrefused =>
      rw [HandlerM.call_eq_finished hrefused]
      exact ⟨rfl, rfl, fun k f hf => ⟨f, hf, Frame.Alike.refl f⟩⟩
  | @left base opened exec _ last exit resume rest _ hopened hrest hwithin hleaves hresume =>
      obtain ⟨rfl, ⟨context, hopen, rfl⟩, rfl⟩ := HandlerM.call_eq_suspended hopened
      obtain ⟨rfl, rfl⟩ := Progress.finished.inj hresume
      have hexit : ¬exit.Final := by
        rintro hfinal
        rcases hreply with ⟨value, hvalue⟩ | ⟨value, hvalue⟩
        · exact hfinal.reply.1 value hvalue
        · exact hfinal.reply.2 value hvalue
      have hstep : m.step state = .running ⟨before.enterCall context args, rest⟩ := by
        rw [hcall.step_eq, hopened, hrest, Progress.bind, turn, carry]
      have hnested := nested_of_step hm (hstate.nested hm hrun) hstep
      obtain ⟨hlast, hsuffix, halike⟩ :=
        alikeBelow_of_within hm hnested (List.suffix_refl _) hwithin
      have hentered : before.calls + 1 = rest.length := hnested.calls
      subst hrest
      obtain ⟨hdepth, hcalls, hclosed⟩ := hleaves.closed hm hlast hsuffix hexit
      obtain ⟨f, -, -, hpush⟩ := Context.entered_eq_push hopen args
      refine ⟨hdepth, ?_, fun k f hf => ?_⟩
      · simp only [Execution.closeCall, List.length_cons] at hentered ⊢
        omega
      · have hk := Context.lt_depth_of_frame? hf
        refine (halike.trans hclosed).exists_alike hk ?_
        simp only [Execution.enterCall, hpush]
        rw [Context.frame?_push, if_neg (Nat.ne_of_lt hk), hf]

/-- A call of a callee that enters a scope and returns from inside it. -/
def callIntoScope : Machine :=
  Reference.machine #[38, 11, 0, 37, 37, 32, 7, 25, 9]

theorem call_preserves_caller_callIntoScope :
    ∃ i next before after, callIntoScope.Active ⟨callIntoScope.start.exec, []⟩ i
        ((HandlerM.call 5 [] callIntoScope.toSetup i.toSite before).bind next) [] ∧
      callIntoScope.CallEnds i next [] 5 [] before (.ok (.int 4)) after ∧
      after.context.depth = before.context.depth ∧ after.calls = before.calls ∧
      ∀ k f, before.context.frame? k = some f →
        ∃ g, after.context.frame? k = some g ∧ f.Alike g := by
  have hrun : ∃ i next begun before opened resume j entered last k returning exec after,
      callIntoScope.fetch 0 callIntoScope.start.exec = (.ok (i, Reference.callWith 0), begun) ∧
      Reference.callWith 0 callIntoScope.toSetup i.toSite begun =
        (HandlerM.call 5 [] callIntoScope.toSetup i.toSite before).bind next ∧
      HandlerM.call 5 [] callIntoScope.toSetup i.toSite before = .suspended 1 opened resume ∧
      callIntoScope.fetch 1 opened = (.ok (j, Reference.tryEnter), entered) ∧
      turn j (Reference.tryEnter callIntoScope.toSetup j.toSite entered) = .goesOn last ∧
      callIntoScope.fetch 1 last = (.ok (k, Reference.returnValue), returning) ∧
      turn k (Reference.returnValue callIntoScope.toSetup k.toSite returning) =
        .leaves (.returned (.int 4)) exec ∧
      resume (.ok (.int 4)) exec = .finished (.ok (.int 4)) after := by
    exact ⟨_, fun v exec => (do HandlerM.write v; return .continue : Handler)
        callIntoScope.toSetup ⟨0, 38, 0⟩ exec, _,
      { context := ⟨#[], { ip := 2, kind := .root, parent := none }, 9⟩, steps := 1 },
      _, _, _, _, _, _, _, _, _, rfl, rfl, rfl, rfl, rfl, rfl, rfl, rfl⟩
  obtain ⟨i, next, begun, before, opened, resume, j, entered, last, k, returning, exec, after,
    hfetch, hcalling, hopened, hentered, hgoes, hreturning, hleaves, hresume⟩ := hrun
  have hactive : callIntoScope.Active ⟨callIntoScope.start.exec, []⟩ i _ [] := .started hfetch
  rw [hcalling] at hactive
  generalize hrest : [(⟨i, 1, fun reply exec => (resume reply exec).bind next⟩ : Suspension)] = rest
  have hbase : (⟨opened, rest⟩ : MachineState).base = 1 := hrest ▸ rfl
  have hwithin : callIntoScope.StepsWithin rest ⟨opened, rest⟩ ⟨last, rest⟩ :=
    stepsWithin_of_goesOn (hbase ▸ hentered) hgoes
  have hreturn : callIntoScope.Leaves ⟨last, rest⟩ rest (.returned (.int 4)) exec :=
    ⟨k, _, .started (hbase ▸ hreturning), hleaves⟩
  have hends : callIntoScope.CallEnds i next [] 5 [] before (.ok (.int 4)) after :=
    .left hopened hrest.symm (.single hwithin) hreturn hresume
  exact ⟨i, next, before, after, hactive, hends,
    call_preserves_caller (Reference.standard_machine _) (fresh_start _ _ _) ⟨0, rfl⟩ hactive
      hends (.inl ⟨_, rfl⟩)⟩

end Machine

end TaggedBytecode
