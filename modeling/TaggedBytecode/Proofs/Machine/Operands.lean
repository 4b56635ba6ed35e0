import TaggedBytecode.Proofs.Context.Confined
import TaggedBytecode.Proofs.Disassembly.Layout
import TaggedBytecode.Reference.Opcodes

/-!
# Operands of Handlers

A handler reads its operands itself, one reader after the other, and nothing but the code of
the handler says how many slots that takes. The metadata of its opcode says the same by a
layout. A handler **reads** a layout if, whenever it yields, the instruction pointer has moved
over the slots that the layout spans. Layouts are read in pieces: the constants of the first
computation stand in front of what the second one reads.

All reference opcodes but one read the layout of their metadata. The one that copies a variable
reads a reference where its metadata announces a constant.

## Main definitions

* `Progress.Yields` — a computation that ends in a value, callees included.
* `HandlerM.Reads` — a computation that reads a layout.
* `Reference.Jumps` — an instruction that takes a jump.
* `Reference.FollowsLayout` — a handler that reads a layout where it does not jump.

## Main results

* `HandlerM.Reads.bind` — layouts are read in pieces.
* `Reference.followsLayout_of_mem` — the reference opcodes read the layouts of their metadata.
* `Reference.slots_of_yields_loadVar` — what copying a variable reads.
-/

namespace TaggedBytecode

/-! ### Computations that yield -/

namespace Progress

/-- A computation **yields** a value if it finishes with it. A callee that it waits for on the
way hands a value back over frames alike those it found. -/
inductive Yields {α : Type} (a : α) (after : Execution) : Progress α → Prop
  | finished : Yields a after (.finished (.ok a) after)
  | resumed {base : Nat} {opened exec : Execution} {reply : Except Thrown Val}
      {resume : Except Thrown Val → Execution → Progress α} :
      (∀ value, reply = .ok value →
        exec.context.depth = base ∧ opened.context.AlikeBelow base exec.context) →
      Yields a after (resume reply exec) → Yields a after (.suspended base opened resume)

variable {α β : Type} {exec after : Execution}

theorem Yields.eq_of_finished {a : α} {reply : Except Thrown α}
    (h : (Progress.finished reply exec).Yields a after) : reply = .ok a ∧ exec = after := by
  cases h
  exact ⟨rfl, rfl⟩

/-- What yields after a bind yields in both of its parts. Induction on how far the first part
got. -/
theorem Yields.of_bind {p : Progress α} {next : α → Execution → Progress β} {b : β}
    (h : (p.bind next).Yields b after) :
    ∃ a mid, p.Yields a mid ∧ (next a mid).Yields b after := by
  induction p with
  | finished reply exec =>
      cases reply with
      | ok a => exact ⟨a, exec, .finished, h⟩
      | error thrown => cases h
  | suspended base opened resume ih =>
      cases h with
      | resumed hreply hrest =>
          obtain ⟨a, mid, ha, hb⟩ := ih _ _ hrest
          exact ⟨a, mid, .resumed hreply ha, hb⟩
  | aborted message => cases h

end Progress

/-! ### Instruction pointers -/

namespace Context

variable {ctx after : Context}

theorem ip_assign (ctx : Context) (slot : Nat) (value : Val) :
    (ctx.assign slot value).ip = ctx.ip := by
  rw [assign]
  split
  · rw [modifyFrame]
    split <;> rfl
  · rfl

/-- A scope goes on where the frame below it is. -/
theorem ip_pushScope {handler : Option Nat} (h : ctx.pushScope handler = .ok after) :
    after.ip = ctx.ip := by
  simp only [pushScope] at h
  split at h
  · obtain ⟨-, -, rfl⟩ := map_eq_ok_iff.mp h
    rfl
  · obtain rfl := Except.ok.inj h
    rfl

/-- A scope hands its instruction pointer on. -/
theorem ip_pop {released : Frame} (hkind : ctx.current.kind = .scope)
    (h : ctx.pop = some (released, after)) : after.ip = ctx.ip := by
  rw [pop] at h
  split at h
  · cases h
  · obtain ⟨-, rfl⟩ := Prod.mk.inj (Option.some.inj h)
    exact if_pos hkind

/-- As many frames that are alike have the same instruction pointer. -/
theorem AlikeBelow.ip_eq (h : AlikeBelow ctx.depth ctx after) (hdepth : after.depth = ctx.depth) :
    after.ip = ctx.ip := by
  have hindex : after.currentIndex = ctx.currentIndex := Nat.succ.inj hdepth
  obtain ⟨f, hf, halike⟩ := h.exists_alike ctx.currentIndex_lt_depth ctx.frame?_currentIndex
  rw [← hindex, after.frame?_currentIndex] at hf
  obtain rfl := Option.some.inj hf
  exact halike.ip

end Context

namespace HandlerM

variable {α β : Type} {setup : Setup} {site : Site} {exec after : Execution}

/-- A computation **reads** a layout if it moves the instruction pointer over the slots that
the layout spans, whenever it yields. -/
def Reads (m : HandlerM α) (count : Nat) (writes : Bool) : Prop :=
  ∀ setup site exec a after, (m setup site exec).Yields a after →
    setup.decoder.Spans setup.program count writes exec.context.ip after.context.ip

/-! ### Composition -/

/-- Layouts are read in pieces, the constants of the first computation first. -/
theorem Reads.bind {m : HandlerM α} {f : α → HandlerM β} {k count : Nat} {writes : Bool}
    (hm : m.Reads k false) (hf : ∀ a, (f a).Reads count writes) :
    (m >>= f).Reads (count + k) writes := by
  intro setup site exec b after h
  obtain ⟨a, mid, ha, hb⟩ := Progress.Yields.of_bind h
  exact (hm _ _ _ _ _ ha).append (hf a _ _ _ _ _ hb)

/-- A computation that reads nothing may come last. -/
theorem Reads.andThen {m : HandlerM α} {f : α → HandlerM β} {count : Nat} {writes : Bool}
    (hm : m.Reads count writes) (hf : ∀ a, (f a).Reads 0 false) :
    (m >>= f).Reads count writes := by
  intro setup site exec b after h
  obtain ⟨a, mid, ha, hb⟩ := Progress.Yields.of_bind h
  rw [← (hf a _ _ _ _ _ hb).eq_of_none]
  exact hm _ _ _ _ _ ha

/-- A computation that leaves the instruction pointer where it is reads nothing. -/
theorem reads_none {m : HandlerM α}
    (h : ∀ setup site exec a after, (m setup site exec).Yields a after →
      after.context.ip = exec.context.ip) : m.Reads 0 false := by
  intro setup site exec a after hyields
  rw [h setup site exec a after hyields]
  exact .none _

/-! ### Operations -/

theorem reads_pure (a : α) : (pure a : HandlerM α).Reads 0 false := by
  refine reads_none fun _ _ _ _ _ h => ?_
  obtain ⟨-, rfl⟩ := h.eq_of_finished
  rfl

/-- What throws does not yield. -/
theorem reads_throw (thrown : Thrown) (count : Nat) (writes : Bool) :
    (throw thrown : HandlerM α).Reads count writes := by
  intro setup site exec a after h
  cases h

theorem reads_abort (message : String) : (abort message : HandlerM α).Reads 0 false := by
  intro setup site exec a after h
  cases h

theorem reads_context : context.Reads 0 false := by
  refine reads_none fun _ _ _ _ _ h => ?_
  obtain ⟨-, rfl⟩ := h.eq_of_finished
  rfl

/-- An action on the context reads what it moves the instruction pointer over. -/
theorem reads_onContext {f : Setup → Context → Except Fault (α × Context)} {count : Nat}
    {writes : Bool} (h : ∀ setup ctx a after, f setup ctx = .ok (a, after) →
      setup.decoder.Spans setup.program count writes ctx.ip after.ip) :
    (onContext f).Reads count writes := by
  intro setup site exec a after hyields
  rw [onContext] at hyields
  split at hyields
  · rename_i hf
    obtain ⟨-, rfl⟩ := hyields.eq_of_finished
    exact h setup _ _ _ hf
  · cases hyields

theorem reads_onContext_none {f : Setup → Context → Except Fault (α × Context)}
    (h : ∀ setup ctx a after, f setup ctx = .ok (a, after) → after.ip = ctx.ip) :
    (onContext f).Reads 0 false := by
  refine reads_onContext fun setup ctx a after hf => ?_
  rw [h setup ctx a after hf]
  exact .none _

theorem reads_constant : constant.Reads 1 false := by
  refine reads_onContext fun setup ctx c after h => ?_
  simp only [bind_eq_ok_iff, Prod.exists, pure, Except.pure, Except.ok.injEq, Prod.mk.injEq] at h
  obtain ⟨_, q, hconstant, -, rfl⟩ := h
  exact .constant hconstant (.none q)

theorem reads_lookUp (slot : Nat) : (lookUp slot).Reads 0 false := by
  refine reads_none fun _ _ _ _ _ h => ?_
  rw [lookUp] at h
  split at h
  · obtain ⟨-, rfl⟩ := h.eq_of_finished
    rfl
  · cases h

theorem reads_write (value : Val) : (write value).Reads 0 true := by
  refine reads_onContext fun setup ctx _ after h => ?_
  obtain ⟨_, hwrite, hafter⟩ := map_eq_ok_iff.mp h
  obtain ⟨-, rfl⟩ := Prod.mk.inj hafter
  simp only [Context.write, bind_eq_ok_iff, Prod.exists, pure, Except.pure,
    Except.ok.injEq] at hwrite
  obtain ⟨slot, q, hslot, rfl⟩ := hwrite
  exact .destination hslot

theorem reads_assign (slot : Nat) (value : Val) : (assign slot value).Reads 0 false := by
  rw [assign, modifyContext]
  refine reads_onContext_none fun _ ctx _ _ h => ?_
  obtain ⟨-, rfl⟩ := Prod.mk.inj (Except.ok.inj h)
  exact ctx.ip_assign slot value

theorem reads_pushScope (handler : Option Nat) : (pushScope handler).Reads 0 false := by
  refine reads_onContext_none fun _ _ _ _ h => ?_
  obtain ⟨_, hpush, hafter⟩ := map_eq_ok_iff.mp h
  obtain ⟨-, rfl⟩ := Prod.mk.inj hafter
  exact Context.ip_pushScope hpush

theorem reads_clearHandler : clearHandler.Reads 0 false := by
  refine reads_onContext_none fun _ _ _ _ h => ?_
  obtain ⟨-, rfl⟩ := Prod.mk.inj (Except.ok.inj h)
  rfl

theorem reads_takePending : takePending.Reads 0 false := by
  refine reads_onContext_none fun _ _ _ _ h => ?_
  obtain ⟨-, rfl⟩ := Prod.mk.inj (Except.ok.inj h)
  rfl

theorem reads_pending : pending.Reads 0 false :=
  .andThen reads_context fun _ => reads_pure _

theorem reads_newIdentity : newIdentity.Reads 0 false := by
  refine reads_none fun _ _ _ _ _ h => ?_
  obtain ⟨-, rfl⟩ := h.eq_of_finished
  rfl

theorem reads_callHost (name : String) (args : List Val) : (callHost name args).Reads 0 false := by
  refine reads_none fun setup _ exec _ _ h => ?_
  cases hcall : (setup.host.call name args).run.run exec.world with
  | mk reply world =>
      simp only [callHost, hcall] at h
      cases reply with
      | ok value =>
          obtain ⟨-, rfl⟩ := h.eq_of_finished
          rfl
      | error failure => cases h

/-- A callee reads operands of its own, but the caller's instruction pointer stays. -/
theorem reads_call (entry : Nat) (args : List Val) : (call entry args).Reads 0 false := by
  refine reads_none fun _ _ exec _ _ h => ?_
  rw [call] at h
  split at h
  · cases h
  · split at h
    · cases h
    · rename_i opened hopen
      cases h with
      | resumed hreply hrest =>
          obtain ⟨rfl, rfl⟩ := hrest.eq_of_finished
          obtain ⟨hdepth, halike⟩ := hreply _ rfl
          have hentered := Context.alikeBelow_pushCall hopen args
          exact (hentered.trans halike).ip_eq hdepth

/-- Reading a variable reads a reference. -/
theorem slot_of_yields_readVar {v : Val} (h : (readVar setup site exec).Yields v after) :
    ∃ reference, Decoder.slot setup.program exec.context.ip =
      .ok (reference, after.context.ip) := by
  cases hslot : Decoder.slot setup.program exec.context.ip with
  | error fault =>
      simp only [readVar, Context.readVar, hslot] at h
      cases h
  | ok read =>
      obtain ⟨reference, q⟩ := read
      simp only [readVar, Context.readVar, hslot] at h
      split at h
      · obtain ⟨-, rfl⟩ := h.eq_of_finished
        exact ⟨reference, rfl⟩
      · cases h

/-! ### Readers -/

theorem reads_operand : operand.Reads 1 false := by
  refine .andThen reads_constant fun c => ?_
  cases c with
  | varRef slot => exact reads_lookUp slot
  | _ => exact reads_pure _

theorem reads_operands (n : Nat) : (operands n).Reads n false := by
  induction n with
  | zero => exact reads_pure _
  | succ n ih => exact .bind reads_operand fun v => .andThen ih fun rest => reads_pure _

theorem reads_target : target.Reads 1 false := by
  refine .bind reads_context fun ctx => .andThen reads_constant fun c => ?_
  cases c with
  | smallInt n =>
      simp only
      split
      · exact reads_throw _ _ _
      · exact reads_pure _
  | _ => exact reads_throw _ _ _

theorem reads_binding : binding.Reads 1 false := by
  refine .bind reads_context fun ctx => .andThen reads_constant fun c => ?_
  cases c with
  | varRef slot => exact reads_pure _
  | _ => exact reads_throw _ _ _

/-- An operand never waits for a callee. -/
theorem exists_operand (setup : Setup) (site : Site) (exec : Execution) :
    ∃ reply after, operand setup site exec = .finished reply after := by
  simp only [operand, Bind.bind, constant, onContext]
  split
  · rw [Progress.bind]
    split
    · rw [lookUp]
      split <;> exact ⟨_, _, rfl⟩
    · exact ⟨_, _, rfl⟩
  · exact ⟨_, _, rfl⟩

theorem operand_of_yields {v : Val} (h : (operand setup site exec).Yields v after) :
    operand setup site exec = .finished (.ok v) after := by
  obtain ⟨reply, mid, hoperand⟩ := exists_operand setup site exec
  rw [hoperand] at h
  obtain ⟨rfl, rfl⟩ := h.eq_of_finished
  exact hoperand

end HandlerM

namespace Reference

open HandlerM

/-! ### Instructions that compute -/

theorem reads_computing1 {f : Val → HandlerM Val} (hf : ∀ a, (f a).Reads 0 false) :
    (computing1 f).Reads 1 true :=
  .bind reads_operand fun a => .bind (hf a) fun v => .andThen (reads_write v) fun _ => reads_pure _

theorem reads_computing2 {f : Val → Val → HandlerM Val} (hf : ∀ a b, (f a b).Reads 0 false) :
    (computing2 f).Reads 2 true :=
  .bind reads_operand fun a => .bind reads_operand fun b => .bind (hf a b) fun v =>
    .andThen (reads_write v) fun _ => reads_pure _

theorem reads_result (r : Val.Result) : (result r).Reads 0 false := by
  rcases r with e | value
  · cases e with
    | overflow => exact reads_abort _
    | _ => exact reads_throw _ _ _
  · exact reads_pure value

theorem reads_arithmetic (op : Val → Val → Val.Result) : (arithmetic op).Reads 2 true :=
  reads_computing2 fun a b => reads_result (op a b)

theorem reads_total2 (op : Val → Val → Val) : (total2 op).Reads 2 true :=
  reads_computing2 fun a b => reads_pure (op a b)

theorem reads_total1 (op : Val → Val) : (total1 op).Reads 1 true :=
  reads_computing1 fun a => reads_pure (op a)

theorem reads_comparing (relation : Val → Val → Bool) : (comparing relation).Reads 2 true :=
  reads_total2 _

theorem reads_instanceOf : instanceOf.Reads 2 true := by
  refine reads_computing2 fun value kind => ?_
  cases kind with
  | str name => exact reads_pure _
  | _ => exact reads_throw _ _ _

/-! ### Instructions on variables and containers -/

theorem reads_creating (make : Nat → Val) : (creating make).Reads 0 true :=
  .bind reads_newIdentity fun identity => .andThen (reads_write (make identity)) fun _ =>
    reads_pure _

theorem reads_storeVar : storeVar.Reads 2 false :=
  .bind reads_binding fun slot => .bind reads_operand fun v => .bind (reads_assign slot v) fun _ =>
    reads_pure _

theorem reads_propertyGet : propertyGet.Reads 2 true := by
  refine reads_computing2 fun object key => ?_
  split
  · exact reads_throw _ _ _
  · exact reads_pure _

theorem reads_propertySet : propertySet.Reads 3 false := by
  refine .bind reads_binding fun slot => .bind reads_operand fun key =>
    .bind reads_operand fun value => .bind (reads_lookUp slot) fun object =>
      .bind reads_newIdentity fun identity => ?_
  cases object.setProperty identity key value with
  | ok updated => exact .bind (reads_assign slot updated) fun _ => reads_pure _
  | error refusal => exact reads_throw _ _ _

/-! ### Instructions of control -/

theorem reads_halt : halt.Reads 0 false :=
  reads_pure _

theorem reads_returnValue : returnValue.Reads 1 false :=
  .andThen reads_operand fun _ => reads_pure _

theorem reads_throwValue : throwValue.Reads 1 false :=
  .andThen reads_operand fun _ => reads_throw _ _ _

theorem reads_tryEnter : tryEnter.Reads 1 false :=
  .bind reads_target fun target => .andThen (reads_pushScope (some target)) fun _ => reads_pure _

theorem reads_getException : getException.Reads 0 true :=
  .bind reads_clearHandler fun _ => .bind reads_pending fun v =>
    .andThen (reads_write (v.getD .undefined)) fun _ => reads_pure _

theorem reads_clearException : clearException.Reads 0 false :=
  .bind reads_takePending fun _ => reads_pure _

theorem reads_invoke (callee : Val) (args : List Val) : (invoke callee args).Reads 0 false := by
  simp only [invoke]
  cases callee with
  | int entry =>
      simp only
      split
      · exact reads_throw _ _ _
      · exact reads_call _ args
  | str name => exact reads_callHost name args
  | _ => exact reads_throw _ _ _

theorem reads_callWith (count : Nat) : (callWith count).Reads (1 + count) true := by
  have h : (callWith count).Reads (0 + count + 1) true :=
    .bind reads_operand fun callee => .bind (reads_operands count) fun args =>
      .bind (reads_invoke callee args) fun v => .andThen (reads_write v) fun _ => reads_pure _
  rwa [Nat.zero_add, Nat.add_comm] at h

theorem reads_hostCallWith (count : Nat) : (hostCallWith count).Reads (1 + count) true := by
  have h : (hostCallWith count).Reads (0 + count + 1) true := by
    refine .bind reads_operand fun name => .bind (reads_operands count) fun args => ?_
    cases name with
    | str name =>
        exact .bind (reads_callHost name args) fun v => .andThen (reads_write v) fun _ =>
          reads_pure _
    | _ => exact reads_throw _ _ _
  rwa [Nat.zero_add, Nat.add_comm] at h

/-! ### Instructions apart -/

/-- The instruction of a name, begun in an execution, takes a jump: always, or because its
condition has the truth that it jumps on. -/
inductive Jumps (setup : Setup) (site : Site) (exec : Execution) : (name : String) → Prop
  | always : Jumps setup site exec "JUMP"
  | ifFalse {condition : Val} {after : Execution} :
      operand setup site exec = .finished (.ok condition) after → condition.isTruthy = false →
      Jumps setup site exec "JUMP_IF_FALSE"
  | ifTrue {condition : Val} {after : Execution} :
      operand setup site exec = .finished (.ok condition) after → condition.isTruthy = true →
      Jumps setup site exec "JUMP_IF_TRUE"

/-- Three instructions can take a jump. -/
theorem Jumps.mem_names {setup : Setup} {site : Site} {exec : Execution} {name : String}
    (h : Jumps setup site exec name) : name ∈ ["JUMP", "JUMP_IF_FALSE", "JUMP_IF_TRUE"] := by
  cases h <;> simp

/-- The handler of a name reads a layout when it goes on and does not jump. It begins in an
execution whose frames above that of the innermost call are scopes. -/
def FollowsLayout (name : String) (handler : Handler) (count : Nat) (writes : Bool) : Prop :=
  ∀ setup site exec after,
    (site.base + 1 < exec.context.depth → exec.context.current.kind = .scope) →
    ¬Jumps setup site exec name → (handler setup site exec).Yields .continue after →
    setup.decoder.Spans setup.program count writes exec.context.ip after.context.ip

theorem followsLayout_of_reads {name : String} {handler : Handler} {count : Nat} {writes : Bool}
    (h : handler.Reads count writes) : FollowsLayout name handler count writes :=
  fun setup site exec after _ _ hyields => h setup site exec .continue after hyields

theorem followsLayout_jump : FollowsLayout "JUMP" jump 1 false :=
  fun _ _ _ _ _ hjump _ => absurd .always hjump

/-- Where a branch does not jump, it reads its condition and its target. -/
theorem spans_of_yields_branch {setup : Setup} {site : Site} {exec after : Execution} {flow : Flow}
    {expected : Bool} (h : (branch expected setup site exec).Yields flow after)
    (hjump : ∀ condition mid, operand setup site exec = .finished (.ok condition) mid →
      condition.isTruthy ≠ expected) :
    setup.decoder.Spans setup.program 2 false exec.context.ip after.context.ip := by
  obtain ⟨condition, mid, hcondition, hrest⟩ := Progress.Yields.of_bind h
  have htruth := hjump condition mid (operand_of_yields hcondition)
  have hreads : (do
      let target ← target
      if condition.isTruthy = expected then HandlerM.jump target
      return .continue : Handler).Reads 1 false := by
    simp only [htruth, if_false]
    exact .andThen reads_target fun _ => reads_pure _
  exact (reads_operand _ _ _ _ _ hcondition).append (hreads _ _ _ _ _ hrest)

theorem followsLayout_branch_false : FollowsLayout "JUMP_IF_FALSE" (branch false) 2 false :=
  fun _ _ _ _ _ hjump hyields => spans_of_yields_branch hyields fun _ _ hcondition htruth =>
    hjump (.ifFalse hcondition htruth)

theorem followsLayout_branch_true : FollowsLayout "JUMP_IF_TRUE" (branch true) 2 false :=
  fun _ _ _ _ _ hjump hyields => spans_of_yields_branch hyields fun _ _ hcondition htruth =>
    hjump (.ifTrue hcondition htruth)

/-- Leaving a scope hands the instruction pointer on. -/
theorem followsLayout_tryExit (name : String) : FollowsLayout name tryExit 0 false := by
  intro setup site exec after hscope _ h
  obtain ⟨_, mid, hpop, hrest⟩ := Progress.Yields.of_bind h
  obtain ⟨-, rfl⟩ := hrest.eq_of_finished
  suffices hip : mid.context.ip = exec.context.ip by
    rw [hip]
    exact .none _
  rw [popScope] at hpop
  split at hpop
  · obtain ⟨-, rfl⟩ := hpop.eq_of_finished
    rfl
  · rename_i hdepth
    split at hpop
    · rename_i hreleased
      obtain ⟨-, rfl⟩ := hpop.eq_of_finished
      exact Context.ip_pop (hscope (Nat.lt_of_not_le hdepth)) hreleased
    · obtain ⟨-, rfl⟩ := hpop.eq_of_finished
      rfl

/-- Copying a variable reads two references, the variable and the destination. -/
theorem slots_of_yields_loadVar {setup : Setup} {site : Site} {exec after : Execution}
    {flow : Flow} (h : (loadVar setup site exec).Yields flow after) :
    ∃ source target mid, Decoder.slot setup.program exec.context.ip = .ok (source, mid) ∧
      Decoder.slot setup.program mid = .ok (target, after.context.ip) := by
  obtain ⟨v, mid, hread, hrest⟩ := Progress.Yields.of_bind h
  have hwrite : (do write v; return .continue : Handler).Reads 0 true :=
    .andThen (reads_write v) fun _ => reads_pure _
  cases hwrite _ _ _ _ _ hrest with
  | destination htarget =>
      obtain ⟨source, hsource⟩ := slot_of_yields_readVar hread
      exact ⟨source, _, _, hsource, htarget⟩

/-- **The reference opcodes read the layouts of their metadata**, except for the one that
copies a variable. -/
theorem followsLayout_of_mem {r : OpcodeRow} (h : r ∈ opcodes) (hname : r.info.name ≠ "LOAD_VAR") :
    FollowsLayout r.info.name r.handler r.info.operands.operandCount r.info.writes := by
  refine Or.resolve_left ?_ hname
  revert r
  simp only [opcodes, row, List.forall_mem_cons, List.not_mem_nil, false_imp_iff, implies_true,
    and_true, OperandClass.operandCount, followsLayout_of_reads, reads_comparing,
    reads_instanceOf, reads_arithmetic, reads_total2, reads_total1, reads_propertyGet,
    reads_propertySet, reads_callWith, reads_creating, followsLayout_jump,
    followsLayout_branch_false, followsLayout_branch_true, reads_returnValue, reads_throwValue,
    reads_storeVar, reads_tryEnter, followsLayout_tryExit, reads_getException,
    reads_clearException, reads_hostCallWith, reads_halt, or_true, true_or]

end Reference

end TaggedBytecode
