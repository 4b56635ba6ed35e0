import TaggedBytecode.Proofs.Constant.Leading
import TaggedBytecode.Proofs.Context.Confined
import TaggedBytecode.Proofs.Machine.Composed

/-!
# Lawful Computations

What a composed handler can do to a run, as one statement (`HandlerM.Composed.lawful`). Its
work is confined to the frames from its base on, and it leaves the count of instructions and
the count of open calls alone. It is suspended only to **enter a call** that the limit allows.
Resumed, it takes the call off the count; whatever the callee failed with it throws again, and
with a value it goes on as lawfully as before. By itself it throws neither the order to halt
nor the fault of a spent budget.

## Main definitions

* `Execution.Confined` — confined work within one instruction.
* `Progress.Lawful` — how far a lawful computation got.

## Main results

* `Progress.Lawful.bind` — lawful computations compose.
* `HandlerM.Composed.lawful` — composed computations are lawful.
-/

namespace TaggedBytecode

namespace Execution

/-- Work of one instruction that is confined to the frames from the base on. -/
structure Confined (base : Nat) (a b : Execution) : Prop where
  context : a.context.Confined base b.context
  steps : b.steps = a.steps
  calls : b.calls = a.calls

/-- One open call less. -/
def closeCall (exec : Execution) : Execution :=
  { exec with calls := exec.calls - 1 }

/-- The execution in which a callee starts, given the context with its new frame. -/
def enterCall (exec : Execution) (opened : Context) (args : List Val) : Execution :=
  { exec with context := opened.storeAll 0 args, calls := exec.calls + 1 }

variable {base : Nat} {a b c : Execution}

theorem Confined.refl (h : base < a.context.depth) : Confined base a a :=
  ⟨Context.Confined.refl h, rfl, rfl⟩

theorem Confined.trans (hab : Confined base a b) (hbc : Confined base b c) :
    Confined base a c :=
  ⟨hab.context.trans hbc.context, hbc.steps.trans hab.steps, hbc.calls.trans hab.calls⟩

end Execution

namespace Progress

variable {α β : Type} {limit base : Nat} {a b : Execution}

/-- How a computation that called goes on: the call is closed, and what the callee failed with
is thrown. -/
def afterCall (next : Val → Execution → Progress α) (reply : Except Thrown Val)
    (exec : Execution) : Progress α :=
  (Progress.finished reply exec.closeCall).bind next

theorem afterCall_bind (next : Val → Execution → Progress α) (f : α → Execution → Progress β) :
    (fun reply exec => (afterCall next reply exec).bind f) =
      afterCall fun value exec => (next value exec).bind f := by
  funext reply exec
  cases reply <;> rfl

/-- How far a lawful computation that began in an execution got. -/
inductive Lawful (limit base : Nat) : Execution → Progress α → Prop
  | finished {a b : Execution} {reply : Except Thrown α} :
      IsOrdinary reply → a.Confined base b → Lawful limit base a (.finished reply b)
  | suspended {a before : Execution} {entry : Nat} {args : List Val}
      {opened : Context} {next : Val → Execution → Progress α} :
      a.Confined base before → before.calls < limit →
      before.context.pushCall entry = .ok opened →
      (∀ value exec, base < exec.context.depth → Lawful limit base exec (next value exec)) →
      Lawful limit base a
        (.suspended before.context.depth (before.enterCall opened args) (afterCall next))
  | aborted {a : Execution} {message : String} : Lawful limit base a (.aborted message)

/-- Lawful work may begin earlier. -/
theorem Lawful.after {p : Progress α} (hab : a.Confined base b) (h : Lawful limit base b p) :
    Lawful limit base a p := by
  cases h with
  | finished hreply hbc => exact .finished hreply (hab.trans hbc)
  | suspended hbefore hlimit hopen hvalue =>
      exact .suspended (hab.trans hbefore) hlimit hopen hvalue
  | aborted => exact .aborted

/-- Lawful computations compose. Induction on how far the first one got: the second one
begins where the first finishes, however many calls that takes. -/
theorem Lawful.bind {p : Progress α} {next : α → Execution → Progress β}
    (h : Lawful limit base a p)
    (hnext : ∀ v b, base < b.context.depth → Lawful limit base b (next v b)) :
    Lawful limit base a (p.bind next) := by
  induction h with
  | @finished _ _ reply hreply hab =>
      cases reply with
      | ok v => exact (hnext v _ hab.context.base_lt).after hab
      | error thrown => exact .finished hreply hab
  | suspended hbefore hlimit hopen _ ih =>
      rw [Progress.bind, afterCall_bind]
      exact .suspended hbefore hlimit hopen ih
  | aborted => exact .aborted

end Progress

/-! ### Faults of the operations -/

namespace Decoder

/-- What fails to be read is at fault itself. -/
def OperandFault {α : Type} (result : Except Fault α) : Prop :=
  ∀ fault, result = .error fault → ∃ position cause, fault = .constant position cause

theorem OperandFault.bind {α β : Type} {x : Except Fault α} {f : α → Except Fault β}
    (hx : OperandFault x) (hf : ∀ a, OperandFault (f a)) : OperandFault (x >>= f) := by
  intro fault h
  cases x with
  | error e => exact hx fault (by simpa [Bind.bind, Except.bind] using h)
  | ok a => exact hf a fault h

theorem operandFault_ok {α : Type} (a : α) : OperandFault (.ok a) := by
  intro fault h
  cases h

theorem operandFault_error {α : Type} (position : Nat) (cause : ConstantError) :
    OperandFault (.error (.constant position cause) : Except Fault α) := by
  intro fault h
  exact ⟨position, cause, (Except.error.inj h).symm⟩

theorem OperandFault.map {α β : Type} {x : Except Fault α} (hx : OperandFault x) (f : α → β) :
    OperandFault (x.map f) := by
  cases x with
  | error e =>
      obtain ⟨position, cause, rfl⟩ := hx e rfl
      exact operandFault_error position cause
  | ok a => exact operandFault_ok (f a)

theorem operandFault_slotReference (raw : Int32) (after : Nat) :
    OperandFault (slotReference raw after) := by
  rw [slotReference]
  split
  · exact operandFault_error _ _
  · exact operandFault_ok _

theorem operandFault_slot (program : Program) (position : Nat) :
    OperandFault (slot program position) := by
  cases hraw : program[position]? with
  | none =>
      rw [slot_of_size (Array.getElem?_eq_none_iff.mp hraw)]
      exact operandFault_error _ _
  | some raw =>
      rw [slot_eq hraw]
      exact (operandFault_slotReference _ _).map _

theorem operandFault_floatPayload (program : Program) (position : Nat) :
    OperandFault (floatPayload program position) := by
  have hread := floatRead program position
  generalize floatPayload program position = outcome at hread
  cases hread with
  | words => exact operandFault_ok _
  | noHigh | noLow => exact operandFault_error _ _

theorem operandFault_stringPayload (d : Decoder) (program : Program) (position : Nat) :
    OperandFault (d.stringPayload program position) := by
  have hread := d.stringRead program position
  generalize d.stringPayload program position = outcome at hread
  cases hread with
  | pooled | units => exact operandFault_ok _
  | noLength | negative | noOffset | outside | cutOff => exact operandFault_error _ _

theorem operandFault_announced (d : Decoder) (program : Program) (position : Nat)
    (marker : Marker) : OperandFault (d.announced program position marker) := by
  cases marker with
  | float => exact (operandFault_floatPayload _ _).map _
  | string => exact (operandFault_stringPayload _ _ _).map _
  | _ => exact operandFault_ok _

theorem operandFault_constant (d : Decoder) (program : Program) (position : Nat) :
    OperandFault (d.constant program position) := by
  cases hraw : program[position]? with
  | none =>
      rw [constant_of_size (Array.getElem?_eq_none_iff.mp hraw)]
      exact operandFault_error _ _
  | some raw =>
      rw [constant_eq_led hraw]
      cases d.markers.lead raw with
      | integer => exact operandFault_ok _
      | marked marker => exact operandFault_announced _ _ _ _
      | reference => exact (operandFault_slotReference _ _).map _

end Decoder

namespace HandlerM

/-- A computation that is lawful wherever it runs. -/
def Lawful {α : Type} (m : HandlerM α) : Prop :=
  ∀ setup site exec, site.base < exec.context.depth →
    (m setup site exec).Lawful setup.maxCallDepth site.base exec

variable {α β : Type}

/-! ### The operations are lawful -/

theorem Lawful.bind {m : HandlerM α} {f : α → HandlerM β} (hm : m.Lawful)
    (hf : ∀ a, (f a).Lawful) : (m >>= f).Lawful :=
  fun setup site exec hexec => (hm setup site exec hexec).bind fun a b hb => hf a setup site b hb

/-- An action on the context is lawful if its changes are confined and its faults are none
of a spent budget. -/
theorem lawful_onContext {f : Setup → Context → Except Fault (α × Context)}
    (hconfined : ∀ setup base ctx, base < ctx.depth → ∀ a after,
      f setup ctx = .ok (a, after) → ctx.Confined base after)
    (hfault : ∀ setup ctx fault, f setup ctx = .error fault → (Thrown.fault fault).IsOrdinary) :
    (onContext f).Lawful := by
  intro setup site exec hexec
  rw [onContext]
  cases hf : f setup exec.context with
  | ok result =>
      exact .finished trivial ⟨hconfined setup site.base _ hexec _ _ hf, rfl, rfl⟩
  | error fault =>
      exact .finished (hfault setup _ fault hf) (Execution.Confined.refl hexec)

theorem lawful_modifyContext {f : Context → Context}
    (hconfined : ∀ (base : Nat) (ctx : Context), base < ctx.depth → ctx.Confined base (f ctx)) :
    (modifyContext f).Lawful := by
  refine lawful_onContext (fun _ base ctx hctx a after h => ?_) fun _ _ _ h => ?_
  · simp only [Except.ok.injEq, Prod.mk.injEq, true_and] at h
    exact h ▸ hconfined base ctx hctx
  · cases h

/-- An operation of the context that refuses only targets outside the program. -/
theorem lawful_targeted {f : Context → Except Fault Context}
    (hconfined : ∀ base ctx after, base < ctx.depth → f ctx = .ok after →
      ctx.Confined base after)
    (hfault : ∀ ctx fault, f ctx = .error fault → ∃ target length,
      fault = .outOfBounds target length) :
    (onContext fun _ ctx => (f ctx).map fun ctx => ((), ctx)).Lawful := by
  refine lawful_onContext (fun _ base ctx hctx a after h => ?_) fun _ ctx fault h => ?_
  · cases hf : f ctx with
    | ok next =>
        simp only [hf, Except.map, Except.ok.injEq, Prod.mk.injEq, true_and] at h
        exact hconfined base ctx after hctx (h ▸ hf)
    | error fault => simp [hf, Except.map] at h
  · cases hf : f ctx with
    | ok next => simp [hf, Except.map] at h
    | error e =>
        simp only [hf, Except.map, Except.error.injEq] at h
        obtain ⟨target, length, rfl⟩ := hfault ctx e hf
        exact h ▸ trivial

theorem lawful_constant : constant.Lawful := by
  refine lawful_onContext (fun setup base ctx hctx c after h => ?_) fun setup ctx fault h => ?_
  · cases hread : setup.decoder.constant setup.program ctx.ip with
    | ok read =>
        simp only [hread, bind, Except.bind, pure, Except.pure, Except.ok.injEq,
          Prod.mk.injEq] at h
        exact h.2 ▸ Context.confined_setIp hctx _
    | error fault => simp [hread, bind, Except.bind] at h
  · obtain ⟨position, cause, rfl⟩ := Decoder.OperandFault.bind
      (Decoder.operandFault_constant _ _ _) (fun _ => Decoder.operandFault_ok _) fault h
    trivial

theorem lawful_lookUp (slot : Nat) : (lookUp slot).Lawful := by
  intro setup site exec hexec
  rw [lookUp]
  split
  · exact .finished trivial (.refl hexec)
  · exact .finished trivial (.refl hexec)

theorem lawful_write (value : Val) : (write value).Lawful := by
  refine lawful_onContext (fun setup base ctx hctx u after h => ?_) fun setup ctx fault h => ?_
  · cases hwrite : ctx.write setup.program value with
    | ok result =>
        simp only [hwrite, Except.map, Except.ok.injEq, Prod.mk.injEq, true_and] at h
        exact h ▸ Context.confined_write hctx hwrite
    | error fault => simp [hwrite, Except.map] at h
  · cases hwrite : ctx.write setup.program value with
    | ok result => simp [hwrite, Except.map] at h
    | error e =>
        simp only [hwrite, Except.map, Except.error.injEq] at h
        obtain ⟨position, cause, rfl⟩ := Decoder.OperandFault.bind
          (Decoder.operandFault_slot _ _) (fun _ => Decoder.operandFault_ok _) e hwrite
        exact h ▸ trivial

theorem lawful_readVar : readVar.Lawful := by
  intro setup site exec hexec
  refine .finished ?_ ⟨Context.confined_readVar hexec setup.program, rfl, rfl⟩
  cases hslot : Decoder.slot setup.program exec.context.ip with
  | error fault =>
      obtain ⟨position, cause, rfl⟩ := Decoder.operandFault_slot _ _ fault hslot
      trivial
  | ok read =>
      simp only
      split <;> trivial

theorem outOfBounds_of_checkTarget {ctx : Context} {target : Nat} {fault : Fault}
    {f : Unit → Context} (h : (ctx.checkTarget target).map f = .error fault) :
    ∃ target length, fault = .outOfBounds target length := by
  rw [Context.checkTarget] at h
  split at h <;> simp only [Except.map, Except.error.injEq, reduceCtorEq] at h
  exact ⟨_, _, h.symm⟩

theorem lawful_jump (target : Nat) : (jump target).Lawful :=
  lawful_targeted (fun _ _ _ hctx h => Context.confined_jump hctx h)
    fun _ _ h => outOfBounds_of_checkTarget h

theorem lawful_pushScope (handler : Option Nat) : (pushScope handler).Lawful := by
  refine lawful_targeted (fun _ _ _ hctx h => Context.confined_pushScope hctx h)
    fun ctx fault h => ?_
  simp only [Context.pushScope] at h
  split at h
  · exact outOfBounds_of_checkTarget h
  · cases h

theorem lawful_popScope : popScope.Lawful := by
  intro setup site exec hexec
  rw [popScope]
  split
  · exact .finished trivial (.refl hexec)
  · rename_i hdepth
    split
    · rename_i hpop
      exact .finished trivial ⟨Context.confined_pop (Nat.lt_of_not_le hdepth) hpop, rfl, rfl⟩
    · exact .finished trivial (.refl hexec)

theorem lawful_clearHandler : clearHandler.Lawful := by
  refine lawful_onContext (fun _ base ctx hctx _ after h => ?_) fun _ _ _ h => ?_
  · simp only [Except.ok.injEq, Prod.mk.injEq] at h
    exact h.2 ▸ Context.confined_withCurrent hctx rfl rfl
  · cases h

theorem lawful_takePending : takePending.Lawful := by
  refine lawful_onContext (fun _ base ctx hctx _ after h => ?_) fun _ _ _ h => ?_
  · simp only [Except.ok.injEq, Prod.mk.injEq] at h
    exact h.2 ▸ Context.confined_withCurrent hctx rfl rfl
  · cases h

theorem lawful_callHost (name : String) (args : List Val) : (callHost name args).Lawful := by
  intro setup site exec hexec
  rw [callHost]
  obtain ⟨reply, world⟩ := (setup.host.call name args).run.run exec.world
  cases reply with
  | ok value => exact .finished trivial ⟨Context.Confined.refl hexec, rfl, rfl⟩
  | error failure => exact .finished trivial ⟨Context.Confined.refl hexec, rfl, rfl⟩

theorem lawful_call (entry : Nat) (args : List Val) : (call entry args).Lawful := by
  intro setup site exec hexec
  rw [call]
  split
  · exact .finished trivial (.refl hexec)
  · rename_i hlimit
    cases hopen : exec.context.pushCall entry with
    | error fault =>
        obtain ⟨target, length, rfl⟩ := outOfBounds_of_checkTarget hopen
        exact .finished trivial (.refl hexec)
    | ok opened =>
        have hresume : (fun reply exec => .finished reply exec.closeCall) =
            Progress.afterCall fun value exec => .finished (.ok value) exec := by
          funext reply exec
          cases reply <;> rfl
        change Progress.Lawful _ _ _ (.suspended exec.context.depth (exec.enterCall opened args)
          fun reply exec => .finished reply exec.closeCall)
        rw [hresume]
        exact .suspended (.refl hexec) (Nat.lt_of_not_le hlimit) hopen
          fun _ _ hafter => .finished trivial (.refl hafter)

/-- **Composed computations are lawful.** Induction on the composition. -/
theorem Composed.lawful {m : HandlerM α} (h : m.Composed) : m.Lawful := by
  induction h with
  | pure a => exact fun _ _ _ hexec => .finished trivial (.refl hexec)
  | bind _ _ ihm ihf => exact Lawful.bind ihm ihf
  | throw hthrown => exact fun _ _ _ hexec => .finished hthrown (.refl hexec)
  | abort message => exact fun _ _ _ _ => .aborted
  | context => exact fun _ _ _ hexec => .finished trivial (.refl hexec)
  | constant => exact lawful_constant
  | lookUp slot => exact lawful_lookUp slot
  | write value => exact lawful_write value
  | readVar => exact lawful_readVar
  | jump target => exact lawful_jump target
  | assign slot value =>
      exact lawful_modifyContext fun _ _ hctx => Context.confined_assign hctx slot value
  | pushScope handler => exact lawful_pushScope handler
  | popScope => exact lawful_popScope
  | clearHandler => exact lawful_clearHandler
  | takePending => exact lawful_takePending
  | newIdentity =>
      exact fun _ _ _ hexec => .finished trivial ⟨Context.Confined.refl hexec, rfl, rfl⟩
  | callHost name args => exact lawful_callHost name args
  | call entry args => exact lawful_call entry args

end HandlerM

end TaggedBytecode
