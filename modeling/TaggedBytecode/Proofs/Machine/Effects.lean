import TaggedBytecode.Proofs.Constant.Leading
import TaggedBytecode.Proofs.Machine.Calls

/-!
# What Instructions Do to the Frames

Every reference instruction does its work in two parts. First it **looks**: it reads operands,
looks up variables, asks the host, and all that the frames show of it is an instruction pointer
that advances. Then it **acts**, once: it stores, jumps, enters or leaves a scope, or takes what
was caught, unless it enters a call instead. Exceptions are thrown while an instruction looks, so
an instruction that throws has not acted.

## Main definitions

* `Context.Advances`, `Context.Act` — the two parts, as far as the frames show them.
* `HandlerM.Looks` — computations that only look.
* `Progress.Acted`, `HandlerM.Acts` — handlers that look and then act.

## Main results

* `HandlerM.closedReading_looks` — reading operands is looking.
* `Reference.acts_of_mem` — every reference opcode looks and then acts.
* `Machine.throw_changes_no_frame` — an instruction that throws has moved the instruction pointer
  and nothing else.
-/

namespace TaggedBytecode

/-! ### Frames -/

namespace Context

/-- The instruction pointer of the current frame advances, and nothing else changes. -/
def Advances (a b : Context) : Prop :=
  ∃ ip, a.ip ≤ ip ∧ b = a.setIp ip

theorem Advances.refl (a : Context) : a.Advances a :=
  ⟨a.ip, Nat.le_refl _, rfl⟩

theorem Advances.trans {a b c : Context} (hab : a.Advances b) (hbc : b.Advances c) :
    a.Advances c := by
  obtain ⟨ip, hip, rfl⟩ := hab
  obtain ⟨ip', hip', rfl⟩ := hbc
  exact ⟨ip', Nat.le_trans hip hip', rfl⟩

/-- Moving the instruction pointer touches the current frame only. -/
theorem frame?_setIp (ctx : Context) (ip j : Nat) :
    (ctx.setIp ip).frame? j =
      (ctx.frame? j).map fun f => if j = ctx.currentIndex then { f with ip } else f := by
  rw [setIp, frame?_withCurrent]
  by_cases hj : j = ctx.currentIndex
  · rw [hj, if_pos rfl, frame?_currentIndex, Option.map_some, if_pos rfl]
  · simp only [hj, if_false, Option.map_id']

/-- What an instruction does to the frames once it has looked. -/
inductive Act : Context → Context → Prop
  | rest (a : Context) : Act a a
  | store (a : Context) (slot : Nat) (value : Val) : Act a (a.store slot value)
  | assign (a : Context) (slot : Nat) (value : Val) : Act a (a.assign slot value)
  | jump (a : Context) (target : Nat) : Act a (a.setIp target)
  | enter {a b : Context} {handler : Option Nat} : a.pushScope handler = .ok b → Act a b
  | leave {a b : Context} {released : Frame} : a.pop = some (released, b) → Act a b
  | take (a : Context) (ip slot : Nat) (value : Val) :
      Act a ((a.clearHandler.setIp ip).store slot value)
  | forget (a : Context) : Act a a.clearPending

end Context

/-! ### Looking -/

namespace Progress

variable {α β : Type} {before mid : Execution}

/-- How far a computation that only looks got. -/
inductive Looked (before : Execution) : Progress α → Prop
  | finished {reply : Except Thrown α} {after : Execution} :
      before.context.Advances after.context → Looked before (.finished reply after)
  | aborted {message : String} : Looked before (.aborted message)

/-- Looking may begin earlier. -/
theorem Looked.after {p : Progress α} (h : p.Looked mid)
    (hmid : before.context.Advances mid.context) : p.Looked before := by
  cases h with
  | finished hafter => exact .finished (hmid.trans hafter)
  | aborted => exact .aborted

theorem Looked.bind {p : Progress α} {next : α → Execution → Progress β} (h : p.Looked before)
    (hnext : ∀ a mid, (next a mid).Looked mid) : (p.bind next).Looked before := by
  cases h with
  | @finished reply after hafter =>
      cases reply with
      | ok a => exact (hnext a after).after hafter
      | error thrown => exact .finished hafter
  | aborted => exact .aborted

end Progress

namespace HandlerM

variable {α : Type}

/-- A computation that only looks, wherever it runs. -/
def Looks (m : HandlerM α) : Prop :=
  ∀ setup site before, (m setup site before).Looked before

theorem looks_onContext {f : Setup → Context → Except Fault (α × Context)}
    (h : ∀ setup ctx a after, f setup ctx = .ok (a, after) → ctx.Advances after) :
    (onContext f).Looks := by
  intro setup site before
  rw [onContext]
  split
  · rename_i hf
    exact .finished (h setup _ _ _ hf)
  · exact .finished (.refl _)

theorem looks_constant : constant.Looks := by
  refine looks_onContext fun setup ctx c after h => ?_
  simp only [bind_eq_ok_iff, Prod.exists, pure, Except.pure, Except.ok.injEq, Prod.mk.injEq] at h
  obtain ⟨_, q, hconstant, -, rfl⟩ := h
  exact ⟨q, Nat.le_of_lt (Decoder.constant_bounds hconstant).1, rfl⟩

theorem looks_lookUp (slot : Nat) : (lookUp slot).Looks := by
  intro setup site before
  rw [lookUp]
  split <;> exact .finished (.refl _)

/-- Reading operands is looking. -/
theorem closedReading_looks : ClosedReading Looks where
  pure _ := fun _ _ _ => .finished (.refl _)
  bind hm hf := fun setup site before => (hm setup site before).bind fun a => hf a setup site
  throw _ := fun _ _ _ => .finished (.refl _)
  context := fun _ _ _ => .finished (.refl _)
  constant := looks_constant
  lookUp := looks_lookUp

theorem looks_readVar : readVar.Looks := by
  intro setup site before
  have hadvances : before.context.Advances (before.context.readVar setup.program).2 := by
    rw [Context.readVar]
    split
    · exact .refl _
    · rename_i hslot
      have hadvance := Nat.le_of_lt (Decoder.slot_bounds hslot).1
      simp only
      split <;> exact ⟨_, hadvance, rfl⟩
  exact .finished hadvances

theorem looks_newIdentity : newIdentity.Looks :=
  fun _ _ before => .finished (.refl before.context)

/-- The host sees no frame. -/
theorem looks_callHost (name : String) (args : List Val) : (callHost name args).Looks := by
  intro setup site before
  cases hcall : (setup.host.call name args).run.run before.world with
  | mk reply world =>
      simp only [callHost, hcall]
      cases reply <;> exact .finished (.refl before.context)

/-- The result of an operator is a value, an exception or an abort. -/
theorem looks_result (r : Val.Result) : (Reference.result r).Looks := by
  by_cases hr : r = .error .overflow
  · rw [hr]
    exact fun _ _ _ => .aborted
  · exact closedReading_looks.result hr

end HandlerM

/-! ### Looking and acting -/

/-- Writes a value and goes on. -/
def HandlerM.writing (value : Val) : Handler := do
  HandlerM.write value
  return .continue

namespace Progress

variable {α : Type} {setup : Setup} {site : Site} {before mid : Execution}

/-- How far an instruction that began in an execution got: it has looked and acted, or looked and
ended its call, or thrown an exception while it looked, or failed for good, or it waits for a
callee whose value it writes. -/
inductive Acted (setup : Setup) (site : Site) (before : Execution) : Progress Flow → Prop
  | acts {mid : Context} {after : Execution} :
      before.context.Advances mid → mid.Act after.context →
      Acted setup site before (.finished (.ok .continue) after)
  | ends {flow : Flow} {after : Execution} :
      flow ≠ .continue → before.context.Advances after.context →
      Acted setup site before (.finished (.ok flow) after)
  | throws {value : Val} {after : Execution} : before.context.Advances after.context →
      Acted setup site before (.finished (.error (.exception value)) after)
  | fails {thrown : Thrown} {after : Execution} : (∀ value, thrown ≠ .exception value) →
      Acted setup site before (.finished (.error thrown) after)
  | calls {mid : Execution} {entry : Nat} {args : List Val} {opened : Context} :
      before.context.Advances mid.context → mid.context.pushCall entry = .ok opened →
      Acted setup site before (.suspended mid.context.depth (mid.enterCall opened args)
        (afterCall fun value exec => HandlerM.writing value setup site exec))
  | aborts {message : String} : Acted setup site before (.aborted message)

/-- Looking may begin earlier. -/
theorem Acted.after {p : Progress Flow} (h : p.Acted setup site mid)
    (hmid : before.context.Advances mid.context) : p.Acted setup site before := by
  cases h with
  | acts hlooked hact => exact .acts (hmid.trans hlooked) hact
  | ends hflow hlooked => exact .ends hflow (hmid.trans hlooked)
  | throws hlooked => exact .throws (hmid.trans hlooked)
  | fails hthrown => exact .fails hthrown
  | calls hlooked hopen => exact .calls (hmid.trans hlooked) hopen
  | aborts => exact .aborts

/-- A fault fails an instruction for good. -/
theorem acted_fault (fault : Fault) (after : Execution) :
    (finished (.error (.fault fault)) after).Acted setup site before :=
  .fails nofun

/-- What is thrown while looking. -/
theorem acted_error {thrown : Thrown} {after : Execution}
    (h : before.context.Advances after.context) :
    (finished (.error thrown) after).Acted setup site before := by
  cases thrown with
  | exception value => exact .throws h
  | halt => exact .fails nofun
  | fault fault => exact acted_fault fault after

/-- Looking may come first. -/
theorem Looked.acted_bind {p : Progress α} {next : α → Execution → Progress Flow}
    (h : p.Looked before) (hnext : ∀ a mid, (next a mid).Acted setup site mid) :
    (p.bind next).Acted setup site before := by
  cases h with
  | @finished reply after hafter =>
      cases reply with
      | ok a => exact (hnext a after).after hafter
      | error thrown => exact acted_error hafter
  | aborted => exact .aborts

end Progress

namespace HandlerM

variable {α : Type}

/-- A handler that looks and then acts, wherever it runs. -/
def Acts (handler : Handler) : Prop :=
  ∀ setup site before, (handler setup site before).Acted setup site before

/-- Looking may come first. -/
theorem Looks.acts_bind {m : HandlerM α} {f : α → Handler} (hm : m.Looks)
    (hf : ∀ a, (f a).Acts) : (m >>= f).Acts :=
  fun setup site before => (hm setup site before).acted_bind fun a => hf a setup site

theorem acts_pure (flow : Flow) : (pure flow : Handler).Acts := by
  intro setup site before
  by_cases hflow : flow = .continue
  · rw [hflow]
    exact .acts (.refl _) (.rest _)
  · exact .ends hflow (.refl _)

theorem acts_throw (thrown : Thrown) : (throw thrown : Handler).Acts :=
  fun _ _ _ => Progress.acted_error (.refl _)

/-! ### Acting -/

theorem writing_of_slot {setup : Setup} {site : Site} {exec : Execution} {slot q : Nat}
    (h : Decoder.slot setup.program exec.context.ip = .ok (slot, q)) (value : Val) :
    writing value setup site exec = .finished (.ok .continue)
      { exec with context := (exec.context.setIp q).store slot value } := by
  have hwrite : exec.context.write setup.program value =
      .ok (slot, (exec.context.setIp q).store slot value) := by
    simp only [Context.write, h, bind, Except.bind, pure, Except.pure]
  simp only [writing, write, Bind.bind, onContext, hwrite]
  rfl

theorem writing_of_fault {setup : Setup} {site : Site} {exec : Execution} {fault : Fault}
    (h : Decoder.slot setup.program exec.context.ip = .error fault) (value : Val) :
    writing value setup site exec = .finished (.error (.fault fault)) exec := by
  have hwrite : exec.context.write setup.program value = .error fault := by
    simp only [Context.write, h, bind, Except.bind]
  simp only [writing, write, Bind.bind, onContext, hwrite]
  rfl

/-- Reading a destination is looking, and storing there is an act. -/
theorem acts_writing (value : Val) : (writing value).Acts := by
  intro setup site before
  cases hslot : Decoder.slot setup.program before.context.ip with
  | error fault =>
      rw [writing_of_fault hslot]
      exact Progress.acted_fault fault before
  | ok read =>
      obtain ⟨slot, q⟩ := read
      have hadvance := Nat.le_of_lt (Decoder.slot_bounds hslot).1
      rw [writing_of_slot hslot]
      exact .acts ⟨q, hadvance, rfl⟩ (.store _ slot value)

/-- A change of the context that may be refused is an act if it is made. -/
theorem acts_onContext {f : Setup → Context → Except Fault (α × Context)}
    (h : ∀ setup ctx a after, f setup ctx = .ok (a, after) → ctx.Act after) :
    (do let _ ← onContext f; return .continue : Handler).Acts := by
  intro setup site before
  simp only [Bind.bind, onContext]
  split
  · rename_i hf
    exact .acts (.refl _) (h setup _ _ _ hf)
  · exact Progress.acted_fault _ _

theorem acts_assign (slot : Nat) (value : Val) :
    (do assign slot value; return .continue : Handler).Acts := by
  rw [assign, modifyContext]
  refine acts_onContext fun _ ctx _ after h => ?_
  obtain ⟨-, rfl⟩ := Prod.mk.inj (Except.ok.inj h)
  exact .assign ctx slot value

theorem acts_jump (target : Nat) :
    (do HandlerM.jump target; return .continue : Handler).Acts := by
  refine acts_onContext fun _ ctx _ after h => ?_
  obtain ⟨_, hjump, hafter⟩ := map_eq_ok_iff.mp h
  obtain ⟨-, rfl⟩ := Prod.mk.inj hafter
  obtain ⟨_, -, rfl⟩ := map_eq_ok_iff.mp hjump
  exact .jump ctx target

theorem acts_pushScope (handler : Option Nat) :
    (do pushScope handler; return .continue : Handler).Acts := by
  refine acts_onContext fun _ ctx _ after h => ?_
  obtain ⟨_, hpush, hafter⟩ := map_eq_ok_iff.mp h
  obtain ⟨-, rfl⟩ := Prod.mk.inj hafter
  exact .enter hpush

theorem acts_popScope : (do popScope; return .continue : Handler).Acts := by
  intro setup site before
  simp only [Bind.bind, popScope]
  split
  · exact .acts (.refl _) (.rest _)
  · split
    · rename_i hpop
      exact .acts (.refl _) (.leave hpop)
    · exact .acts (.refl _) (.rest _)

/-- A call that is refused has only looked, and any other waits for its callee. -/
theorem acts_call (entry : Nat) (args : List Val) : (call entry args >>= writing).Acts := by
  intro setup site before
  have hbind : (call entry args >>= writing) setup site before =
      (call entry args setup site before).bind fun value exec => writing value setup site exec :=
    rfl
  rw [hbind]
  cases hcall : call entry args setup site before with
  | finished reply after =>
      obtain rfl := call_eq_finished hcall
      have hlooked : (Progress.finished reply after).Looked after := .finished (.refl _)
      exact hlooked.acted_bind fun value => acts_writing value setup site
  | suspended base opened resume =>
      obtain ⟨rfl, ⟨context, hopen, rfl⟩, rfl⟩ := call_eq_suspended hcall
      exact .calls (.refl _) hopen
  | aborted message => exact .aborts

end HandlerM

namespace Reference

open HandlerM

/-! ### Instructions that compute -/

theorem acts_computing1 {f : Val → HandlerM Val} (hf : ∀ a, (f a).Looks) :
    (computing1 f).Acts :=
  closedReading_looks.operand.acts_bind fun a => (hf a).acts_bind acts_writing

theorem acts_computing2 {f : Val → Val → HandlerM Val} (hf : ∀ a b, (f a b).Looks) :
    (computing2 f).Acts :=
  closedReading_looks.operand.acts_bind fun a => closedReading_looks.operand.acts_bind fun b =>
    (hf a b).acts_bind acts_writing

theorem acts_arithmetic (op : Val → Val → Val.Result) : (arithmetic op).Acts :=
  acts_computing2 fun a b => looks_result (op a b)

theorem acts_total2 (op : Val → Val → Val) : (total2 op).Acts :=
  acts_computing2 fun a b => closedReading_looks.pure (op a b)

theorem acts_total1 (op : Val → Val) : (total1 op).Acts :=
  acts_computing1 fun a => closedReading_looks.pure (op a)

theorem acts_comparing (relation : Val → Val → Bool) : (comparing relation).Acts :=
  acts_total2 _

theorem acts_instanceOf : instanceOf.Acts := by
  refine acts_computing2 fun value kind => ?_
  cases kind with
  | str name => exact closedReading_looks.pure _
  | _ => exact closedReading_looks.typeError _

/-! ### Instructions on variables and containers -/

theorem acts_creating (make : Nat → Val) : (creating make).Acts :=
  looks_newIdentity.acts_bind fun identity => acts_writing (make identity)

theorem acts_loadVar : loadVar.Acts :=
  looks_readVar.acts_bind acts_writing

theorem acts_storeVar : storeVar.Acts :=
  closedReading_looks.binding.acts_bind fun slot =>
    closedReading_looks.operand.acts_bind (acts_assign slot)

theorem acts_propertyGet : propertyGet.Acts := by
  refine acts_computing2 fun object key => ?_
  split
  · exact closedReading_looks.typeError _
  · exact closedReading_looks.pure _

theorem acts_propertySet : propertySet.Acts := by
  refine closedReading_looks.binding.acts_bind fun slot =>
    closedReading_looks.operand.acts_bind fun key =>
      closedReading_looks.operand.acts_bind fun value =>
        (looks_lookUp slot).acts_bind fun object => looks_newIdentity.acts_bind fun identity => ?_
  cases object.setProperty identity key value with
  | ok updated => exact acts_assign slot updated
  | error refusal => exact acts_throw _

/-! ### Instructions of control -/

theorem acts_halt : halt.Acts :=
  acts_pure _

theorem acts_jumping : jump.Acts :=
  closedReading_looks.target.acts_bind acts_jump

theorem acts_branch (expected : Bool) : (branch expected).Acts := by
  refine closedReading_looks.operand.acts_bind fun condition =>
    closedReading_looks.target.acts_bind fun target => ?_
  split
  · exact acts_jump target
  · exact acts_pure _

theorem acts_returnValue : returnValue.Acts :=
  closedReading_looks.operand.acts_bind fun v => acts_pure (.return v)

theorem acts_throwValue : throwValue.Acts :=
  closedReading_looks.operand.acts_bind fun v => acts_throw (.exception v)

theorem acts_tryEnter : tryEnter.Acts :=
  closedReading_looks.target.acts_bind fun target => acts_pushScope (some target)

theorem acts_tryExit : tryExit.Acts :=
  acts_popScope

/-- What was caught is written once the frame is disarmed. -/
theorem getException_of_slot {setup : Setup} {site : Site} {exec : Execution} {slot q : Nat}
    (h : Decoder.slot setup.program exec.context.ip = .ok (slot, q)) :
    getException setup site exec = .finished (.ok .continue) { exec with
      context := (exec.context.clearHandler.setIp q).store slot
        (exec.context.pending.getD .undefined) } := by
  let disarmed : Execution := { exec with context := exec.context.clearHandler }
  have hslot : Decoder.slot setup.program disarmed.context.ip = .ok (slot, q) := h
  exact writing_of_slot hslot _

/-- Disarming a frame and writing what it caught is one act. If the destination cannot be read,
the instruction fails for good. -/
theorem acts_getException : getException.Acts := by
  intro setup site before
  cases hslot : Decoder.slot setup.program before.context.ip with
  | error fault =>
      let disarmed : Execution := { before with context := before.context.clearHandler }
      have hfault : Decoder.slot setup.program disarmed.context.ip = .error fault := hslot
      have hfails : getException setup site before = .finished (.error (.fault fault)) disarmed :=
        writing_of_fault hfault _
      rw [hfails]
      exact Progress.acted_fault fault disarmed
  | ok read =>
      obtain ⟨slot, q⟩ := read
      rw [getException_of_slot hslot]
      exact .acts (.refl _) (.take _ q slot _)

theorem acts_clearException : clearException.Acts := by
  refine acts_onContext fun _ ctx _ after h => ?_
  obtain ⟨-, rfl⟩ := Prod.mk.inj (Except.ok.inj h)
  exact .forget ctx

theorem acts_invoke (callee : Val) (args : List Val) : (invoke callee args >>= writing).Acts := by
  simp only [invoke]
  cases callee with
  | int entry =>
      simp only
      split
      · exact (closedReading_looks.error _).acts_bind acts_writing
      · exact acts_call _ args
  | str name => exact (looks_callHost name args).acts_bind acts_writing
  | _ => exact (closedReading_looks.error _).acts_bind acts_writing

theorem acts_callWith (count : Nat) : (callWith count).Acts :=
  closedReading_looks.operand.acts_bind fun callee =>
    (closedReading_looks.operands count).acts_bind (acts_invoke callee)

theorem acts_hostCallWith (count : Nat) : (hostCallWith count).Acts := by
  refine closedReading_looks.operand.acts_bind fun name =>
    (closedReading_looks.operands count).acts_bind fun args => ?_
  cases name with
  | str name => exact (looks_callHost name args).acts_bind acts_writing
  | _ => exact acts_throw _

/-- **Every reference opcode looks and then acts.** -/
theorem acts_of_mem {r : OpcodeRow} (h : r ∈ opcodes) : r.handler.Acts := by
  revert r
  simp only [opcodes, row, List.forall_mem_cons, List.not_mem_nil, false_imp_iff, implies_true,
    and_true, acts_comparing, acts_instanceOf, acts_arithmetic, acts_total2, acts_total1,
    acts_propertyGet, acts_propertySet, acts_callWith, acts_creating, acts_jumping, acts_branch,
    acts_returnValue, acts_throwValue, acts_loadVar, acts_storeVar, acts_tryEnter, acts_tryExit,
    acts_getException, acts_clearException, acts_hostCallWith, acts_halt]

end Reference

/-! ### Instructions that throw -/

namespace Machine

variable {m : Machine} {state : MachineState}

/-- Every instruction of a standard machine looks and then acts. -/
theorem Standard.acts_of_fetch (hm : m.Standard) {base : Nat} {exec begun : Execution}
    {i : Instruction} {handler : Handler}
    (h : m.fetch base exec = (.ok (i, handler), begun)) : handler.Acts := by
  obtain ⟨r, hr, -, rfl⟩ := hm.exists_row_of_fetch h
  exact Reference.acts_of_mem hr

/-- **An instruction that throws has moved the instruction pointer and nothing else.** In every
state of a standard machine, when an instruction finishes with an exception and no callee ran for
it, the frames that the exception is raised from are those before the instruction, with all that
they hold; only the instruction pointer of the current one has advanced. -/
theorem throw_changes_no_frame (hm : m.Standard) {i : Instruction} {handler : Handler}
    {begun after : Execution} {v : Val}
    (hfetch : m.fetch state.base state.exec = (.ok (i, handler), begun))
    (hthrow : handler m.toSetup i.toSite begun = .finished (.error (.exception v)) after) :
    ∃ ip, state.exec.context.ip < ip ∧ after.context = state.exec.context.setIp ip ∧
      after.context.depth = state.exec.context.depth ∧
      ∀ j, after.context.frame? j = (state.exec.context.frame? j).map fun f =>
        if j = state.exec.context.currentIndex then { f with ip } else f := by
  have hacted := hm.acts_of_fetch hfetch m.toSetup i.toSite begun
  rw [hthrow] at hacted
  obtain ⟨rfl, -⟩ := fetch_eq_ok hfetch
  cases hacted with
  | throws hlooked =>
      obtain ⟨ip, hip, hafter⟩ := hlooked
      have hcontext : after.context = state.exec.context.setIp ip := hafter
      refine ⟨ip, hip, hcontext, ?_, fun j => ?_⟩
      · rw [hcontext]
        rfl
      · rw [hcontext, Context.frame?_setIp]
  | fails hthrown => exact absurd rfl (hthrown v)

/-- In a scope that catches, a sum whose second operand is a variable without a value. -/
def addUnbound : Machine :=
  Reference.machine #[32, 13, 7, 3, 64, 32, 37]

theorem throw_changes_no_frame_addUnbound :
    ∃ state i handler begun after v, addUnbound.iterate 1 ⟨addUnbound.start.exec, []⟩ =
        .running state ∧
      addUnbound.fetch state.base state.exec = (.ok (i, handler), begun) ∧
      handler addUnbound.toSetup i.toSite begun = .finished (.error (.exception v)) after ∧
      state.exec.context.depth = 2 ∧ state.exec.context.ip = 2 ∧ after.context.ip = 5 ∧
      ∃ ip, after.context = state.exec.context.setIp ip := by
  have hthrow : ∃ state, addUnbound.iterate 1 ⟨addUnbound.start.exec, []⟩ = .running state ∧
      state.exec.context.depth = 2 ∧ state.exec.context.ip = 2 ∧ ∃ i handler begun after v,
        addUnbound.fetch state.base state.exec = (.ok (i, handler), begun) ∧
        handler addUnbound.toSetup i.toSite begun = .finished (.error (.exception v)) after ∧
        after.context.ip = 5 := by
    conv in addUnbound.iterate _ _ => cbv
    exact ⟨_, rfl, rfl, rfl, _, _, _, _, _, rfl, rfl, rfl⟩
  obtain ⟨state, hrun, hdepth, hstart, i, handler, begun, after, v, hfetch, hhandler, hip⟩ :=
    hthrow
  obtain ⟨ip, -, hcontext, -⟩ :=
    throw_changes_no_frame (Reference.standard_machine _) hfetch hhandler
  exact ⟨state, i, handler, begun, after, v, hrun, hfetch, hhandler, hdepth, hstart, hip, ip,
    hcontext⟩

end Machine

end TaggedBytecode
