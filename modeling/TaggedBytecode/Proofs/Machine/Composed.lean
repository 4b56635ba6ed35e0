import Mathlib
import TaggedBytecode.Machine.Step
import TaggedBytecode.Reference.Opcodes

/-!
# Composed Handlers

A handler can be any function on executions. The handlers of the reference opcodes are not:
each is **composed** of a few operations, one after the other. What is to be shown of every
reference opcode is shown once for every operation and once for their composition, by
induction on `HandlerM.Composed`; no opcode has to be looked at again. Division alone can end a
run in disorder, so a property that rules this out is shown to be `HandlerM.Closed` instead, and
holds of all the other opcodes.

A machine is **standard** if every opcode of its table runs the reference handler of its name.
The numbers of the opcodes, the host, the markers and the limits are free.

## Main definitions

* `HandlerM.Composed` — the computations made of the operations that reference opcodes use.
* `HandlerM.Closed`, `HandlerM.ClosedInside`, `HandlerM.ClosedReading` — the properties that
  composition keeps and that these operations have: all but the aborts, only those that stay
  inside the machine, only those that operands are read with.
* `Machine.Standard` — a machine that runs reference handlers.
* `Reference.machine` — the standard machine with the numbers of the reference opcodes.

## Main results

* `Val.div_eq_overflow_iff` — the only operator that overflows, and the operands it overflows on.
* `Reference.closed_of_mem` — every reference opcode but division has any closed property.
* `Reference.composed_of_mem` — every reference opcode is composed.
* `Machine.Standard.composed` — every handler that a standard machine finds is composed.
* `Machine.standard_of_bind` — binding any opcode map to the reference handlers gives a
  standard machine.
-/

namespace TaggedBytecode

/-- What an operation may throw by itself: anything but the order to halt and the fault of a
spent budget. -/
def Thrown.IsOrdinary : Thrown → Prop
  | .halt => False
  | .fault (.stepLimit _) => False
  | _ => True

/-- What the operations give to each other, or how they end an instruction. -/
def IsOrdinary {α : Type} : Except Thrown α → Prop
  | .ok _ => True
  | .error thrown => thrown.IsOrdinary

namespace HandlerM

/-- The computations made of the operations that reference opcodes use. -/
inductive Composed : {α : Type} → HandlerM α → Prop
  | pure {α : Type} (a : α) : Composed (pure a : HandlerM α)
  | bind {α β : Type} {m : HandlerM α} {f : α → HandlerM β} :
      Composed m → (∀ a, Composed (f a)) → Composed (m >>= f)
  | throw {α : Type} {thrown : Thrown} : thrown.IsOrdinary →
      Composed (HandlerM.throw thrown : HandlerM α)
  | abort {α : Type} (message : String) : Composed (HandlerM.abort message : HandlerM α)
  | context : Composed HandlerM.context
  | constant : Composed HandlerM.constant
  | lookUp (slot : Nat) : Composed (HandlerM.lookUp slot)
  | write (value : Val) : Composed (HandlerM.write value)
  | readVar : Composed HandlerM.readVar
  | jump (target : Nat) : Composed (HandlerM.jump target)
  | assign (slot : Nat) (value : Val) : Composed (HandlerM.assign slot value)
  | pushScope (handler : Option Nat) : Composed (HandlerM.pushScope handler)
  | popScope : Composed HandlerM.popScope
  | clearHandler : Composed HandlerM.clearHandler
  | takePending : Composed HandlerM.takePending
  | newIdentity : Composed HandlerM.newIdentity
  | callHost (name : String) (args : List Val) : Composed (HandlerM.callHost name args)
  | call (entry : Nat) (args : List Val) : Composed (HandlerM.call entry args)

/-- A property of computations that lasts under composition and that the operations have which
operands are read with. -/
structure ClosedReading (P : {α : Type} → HandlerM α → Prop) : Prop where
  pure {α : Type} (a : α) : P (pure a : HandlerM α)
  bind {α β : Type} {m : HandlerM α} {f : α → HandlerM β} : P m → (∀ a, P (f a)) → P (m >>= f)
  throw {α : Type} {thrown : Thrown} : thrown.IsOrdinary →
    P (HandlerM.throw thrown : HandlerM α)
  context : P HandlerM.context
  constant : P HandlerM.constant
  lookUp (slot : Nat) : P (HandlerM.lookUp slot)

/-- A property of computations that lasts under composition and that the operations have which
stay inside the machine. Neither asking the host nor ending the run in disorder is among them. -/
structure ClosedInside (P : {α : Type} → HandlerM α → Prop) : Prop where
  pure {α : Type} (a : α) : P (pure a : HandlerM α)
  bind {α β : Type} {m : HandlerM α} {f : α → HandlerM β} : P m → (∀ a, P (f a)) → P (m >>= f)
  throw {α : Type} {thrown : Thrown} : thrown.IsOrdinary →
    P (HandlerM.throw thrown : HandlerM α)
  context : P HandlerM.context
  constant : P HandlerM.constant
  lookUp (slot : Nat) : P (HandlerM.lookUp slot)
  write (value : Val) : P (HandlerM.write value)
  readVar : P HandlerM.readVar
  jump (target : Nat) : P (HandlerM.jump target)
  assign (slot : Nat) (value : Val) : P (HandlerM.assign slot value)
  pushScope (handler : Option Nat) : P (HandlerM.pushScope handler)
  popScope : P HandlerM.popScope
  clearHandler : P HandlerM.clearHandler
  takePending : P HandlerM.takePending
  newIdentity : P HandlerM.newIdentity
  call (entry : Nat) (args : List Val) : P (HandlerM.call entry args)

/-- A property of computations that the operations of reference opcodes have and that lasts
under composition. Ending the run in disorder is not among the operations. -/
structure Closed (P : {α : Type} → HandlerM α → Prop) : Prop extends ClosedInside P where
  callHost (name : String) (args : List Val) : P (HandlerM.callHost name args)

theorem closed_composed : Closed Composed where
  pure := .pure
  bind := .bind
  throw := .throw
  context := .context
  constant := .constant
  lookUp := .lookUp
  write := .write
  readVar := .readVar
  jump := .jump
  assign := .assign
  pushScope := .pushScope
  popScope := .popScope
  clearHandler := .clearHandler
  takePending := .takePending
  newIdentity := .newIdentity
  callHost := .callHost
  call := .call

/-! ### Operands -/

namespace ClosedReading

variable {P : {α : Type} → HandlerM α → Prop} (h : ClosedReading P)

include h

theorem error {α : Type} (message : String) :
    P (HandlerM.throw (.error message) : HandlerM α) :=
  h.throw trivial

theorem operand : P HandlerM.operand := by
  refine h.bind h.constant fun c => ?_
  cases c with
  | varRef slot => exact h.lookUp slot
  | _ => exact h.pure _

theorem operands (n : Nat) : P (HandlerM.operands n) := by
  induction n with
  | zero => exact h.pure _
  | succ n ih => exact h.bind h.operand fun v => h.bind ih fun rest => h.pure (v :: rest)

theorem target : P HandlerM.target := by
  refine h.bind h.context fun ctx => h.bind h.constant fun c => ?_
  cases c with
  | smallInt n =>
      simp only
      split
      · exact h.throw trivial
      · exact h.pure _
  | _ => exact h.throw trivial

theorem binding : P HandlerM.binding := by
  refine h.bind h.context fun ctx => h.bind h.constant fun c => ?_
  cases c with
  | varRef slot => exact h.pure _
  | _ => exact h.throw trivial

theorem pending : P HandlerM.pending :=
  h.bind h.context fun _ => h.pure _

theorem typeError {α : Type} (message : String) : P (Reference.typeError message : HandlerM α) :=
  h.error _

theorem result {r : Val.Result} (hr : r ≠ .error .overflow) : P (Reference.result r) := by
  rcases r with e | value
  · cases e with
    | overflow => exact absurd rfl hr
    | invalid left symbol right => exact h.typeError _
  · exact h.pure value

end ClosedReading

namespace ClosedInside

variable {P : {α : Type} → HandlerM α → Prop} (h : ClosedInside P)

include h

theorem reading : ClosedReading P where
  pure := h.pure
  bind := h.bind
  throw := h.throw
  context := h.context
  constant := h.constant
  lookUp := h.lookUp

/-! ### Instructions that compute -/

theorem computing1 {f : Val → HandlerM Val} (hf : ∀ a, P (f a)) :
    P (Reference.computing1 f) :=
  h.bind h.reading.operand fun a => h.bind (hf a) fun v => h.bind (h.write v) fun _ => h.pure _

theorem computing2 {f : Val → Val → HandlerM Val} (hf : ∀ a b, P (f a b)) :
    P (Reference.computing2 f) :=
  h.bind h.reading.operand fun a => h.bind h.reading.operand fun b => h.bind (hf a b) fun v =>
    h.bind (h.write v) fun _ => h.pure _

theorem arithmetic {op : Val → Val → Val.Result} (hop : ∀ a b, op a b ≠ .error .overflow) :
    P (Reference.arithmetic op) :=
  h.computing2 fun a b => h.reading.result (hop a b)

theorem total2 (op : Val → Val → Val) : P (Reference.total2 op) :=
  h.computing2 fun a b => h.pure (op a b)

theorem total1 (op : Val → Val) : P (Reference.total1 op) :=
  h.computing1 fun a => h.pure (op a)

theorem comparing (relation : Val → Val → Bool) : P (Reference.comparing relation) :=
  h.total2 _

theorem instanceOf : P Reference.instanceOf := by
  refine h.computing2 fun value kind => ?_
  cases kind with
  | str name => exact h.pure _
  | _ => exact h.reading.typeError _

/-! ### Instructions on variables and containers -/

theorem creating (make : Nat → Val) : P (Reference.creating make) :=
  h.bind h.newIdentity fun identity => h.bind (h.write (make identity)) fun _ => h.pure _

theorem loadVar : P Reference.loadVar :=
  h.bind h.readVar fun v => h.bind (h.write v) fun _ => h.pure _

theorem storeVar : P Reference.storeVar :=
  h.bind h.reading.binding fun slot => h.bind h.reading.operand fun v =>
    h.bind (h.assign slot v) fun _ => h.pure _

theorem propertyGet : P Reference.propertyGet := by
  refine h.computing2 fun object key => ?_
  split
  · exact h.reading.typeError _
  · exact h.pure _

theorem propertySet : P Reference.propertySet := by
  refine h.bind h.reading.binding fun slot => h.bind h.reading.operand fun key =>
    h.bind h.reading.operand fun value => h.bind (h.lookUp slot) fun object =>
      h.bind h.newIdentity fun identity => ?_
  cases object.setProperty identity key value with
  | ok updated => exact h.bind (h.assign slot updated) fun _ => h.pure _
  | error refusal => exact h.reading.typeError _

/-! ### Instructions of control -/

theorem halt : P Reference.halt :=
  h.pure _

theorem jumping : P Reference.jump :=
  h.bind h.reading.target fun target => h.bind (h.jump target) fun _ => h.pure _

theorem branch (expected : Bool) : P (Reference.branch expected) := by
  refine h.bind h.reading.operand fun condition => h.bind h.reading.target fun target => ?_
  split
  · exact h.bind (h.jump target) fun _ => h.pure _
  · exact h.pure _

theorem returnValue : P Reference.returnValue :=
  h.bind h.reading.operand fun v => h.pure (Flow.return v)

theorem throwValue : P Reference.throwValue :=
  h.bind h.reading.operand fun _ => h.throw trivial

theorem tryEnter : P Reference.tryEnter :=
  h.bind h.reading.target fun target => h.bind (h.pushScope (some target)) fun _ => h.pure _

theorem tryExit : P Reference.tryExit :=
  h.bind h.popScope fun _ => h.pure _

theorem getException : P Reference.getException :=
  h.bind h.clearHandler fun _ => h.bind h.reading.pending fun v =>
    h.bind (h.write (v.getD .undefined)) fun _ => h.pure _

theorem clearException : P Reference.clearException :=
  h.bind h.takePending fun _ => h.pure _

/-- A value is called inside the machine, unless it names a capability of the host. -/
theorem invoke {callee : Val} {args : List Val}
    (hhost : ∀ name, callee = .str name → P (HandlerM.callHost name args)) :
    P (Reference.invoke callee args) := by
  simp only [Reference.invoke]
  cases callee with
  | int entry =>
      simp only
      split
      · exact h.reading.error _
      · exact h.call _ args
  | str name => exact hhost name rfl
  | _ => exact h.reading.error _

end ClosedInside

/-! ### Instructions that may ask the host -/

namespace Closed

variable {P : {α : Type} → HandlerM α → Prop} (h : Closed P)

include h

theorem callWith (count : Nat) : P (Reference.callWith count) :=
  h.bind h.reading.operand fun _ => h.bind (h.reading.operands count) fun args =>
    h.bind (h.invoke fun name _ => h.callHost name args) fun v => h.bind (h.write v) fun _ =>
      h.pure _

theorem hostCallWith (count : Nat) : P (Reference.hostCallWith count) := by
  refine h.bind h.reading.operand fun name => h.bind (h.reading.operands count) fun args => ?_
  cases name with
  | str name => exact h.bind (h.callHost name args) fun v => h.bind (h.write v) fun _ => h.pure _
  | _ => exact h.reading.error _

end Closed

end HandlerM

/-! ### Operators without overflow -/

namespace Val

theorem onNumbers_ne_overflow (symbol : String) (op : Binary64 → Binary64 → Binary64) (a b : Val) :
    onNumbers symbol op a b ≠ .error .overflow := by
  rw [onNumbers]
  split <;> simp

theorem add_ne_overflow (a b : Val) : add a b ≠ .error .overflow := by
  rw [add.eq_def]
  split
  · simp
  · simp
  · split
    · exact onNumbers_ne_overflow _ _ _ _
    · simp
  · split
    · exact onNumbers_ne_overflow _ _ _ _
    · simp
  · exact onNumbers_ne_overflow _ _ _ _

theorem sub_ne_overflow (a b : Val) : sub a b ≠ .error .overflow := by
  rw [sub.eq_def]
  split
  · simp
  · exact onNumbers_ne_overflow _ _ _ _

theorem mul_ne_overflow (a b : Val) : mul a b ≠ .error .overflow := by
  rw [mul.eq_def]
  split
  · simp
  · exact onNumbers_ne_overflow _ _ _ _

theorem rem_ne_overflow (a b : Val) : rem a b ≠ .error .overflow := by
  rw [rem.eq_def]
  split
  · split
    · exact onNumbers_ne_overflow _ _ _ _
    · simp
  · exact onNumbers_ne_overflow _ _ _ _

/-- Division overflows for one pair of operands only. -/
theorem div_eq_overflow_iff {a b : Val} :
    div a b = .error .overflow ↔ a = .int Int64.minValue ∧ b = .int (-1) := by
  rw [div.eq_def]
  split
  · rename_i m n
    simp only [Val.int.injEq]
    split
    · rename_i hzero
      simp only [onNumbers_ne_overflow, false_iff, hzero]
      exact fun h => absurd h.2 (by decide)
    · split
      · rename_i h
        simp only [h, and_self]
      · rename_i h
        simp only [h, iff_false]
        split
        · simp
        · exact onNumbers_ne_overflow _ _ _ _
  · rename_i hints
    simp only [onNumbers_ne_overflow, false_iff]
    rintro ⟨rfl, rfl⟩
    exact hints _ _ rfl rfl

end Val

namespace Reference

open HandlerM (Closed ClosedInside Composed closed_composed)

/-- The row of the instruction that divides. -/
theorem row_divide {r : OpcodeRow} (h : r ∈ opcodes) (hname : r.info.name = "DIVIDE") :
    r.handler = arithmetic Val.div := by
  revert r
  simp [opcodes, row]

/-- The rows of the instructions that can call. -/
theorem row_call {r : OpcodeRow} {count : Nat} (h : r ∈ opcodes)
    (hoperands : r.info.operands = .call count) :
    r.handler = callWith count ∨ r.handler = hostCallWith count := by
  revert count
  revert r
  simp [opcodes, row]

/-- **Every reference opcode but division that cannot call has what its operations have.** -/
theorem inside_of_mem {P : {α : Type} → HandlerM α → Prop} (hP : ClosedInside P) {r : OpcodeRow}
    (h : r ∈ opcodes) (hname : r.info.name ≠ "DIVIDE")
    (hoperands : ∀ count, r.info.operands ≠ .call count) : P r.handler := by
  revert r
  simp only [opcodes, row, List.forall_mem_cons, List.not_mem_nil, false_imp_iff, implies_true,
    and_true, hP.comparing, hP.instanceOf, hP.arithmetic Val.add_ne_overflow,
    hP.arithmetic Val.sub_ne_overflow, hP.arithmetic Val.mul_ne_overflow,
    hP.arithmetic Val.rem_ne_overflow, hP.total2, hP.total1, hP.propertyGet, hP.propertySet,
    hP.creating, hP.jumping, hP.branch, hP.returnValue, hP.throwValue, hP.loadVar,
    hP.storeVar, hP.tryEnter, hP.tryExit, hP.getException, hP.clearException, hP.halt, ne_eq,
    not_true, OperandClass.call.injEq, forall_eq']

/-- **Every reference opcode but division has what its operations have.** -/
theorem closed_of_mem {P : {α : Type} → HandlerM α → Prop} (hP : Closed P) {r : OpcodeRow}
    (h : r ∈ opcodes) (hname : r.info.name ≠ "DIVIDE") : P r.handler := by
  by_cases hoperands : ∃ count, r.info.operands = .call count
  · obtain ⟨count, hcount⟩ := hoperands
    rcases row_call h hcount with hhandler | hhandler
    · exact hhandler ▸ hP.callWith count
    · exact hhandler ▸ hP.hostCallWith count
  · exact inside_of_mem hP.toClosedInside h hname fun count hcount => hoperands ⟨count, hcount⟩

/-- **Every reference opcode is composed.** -/
theorem composed_of_mem {r : OpcodeRow} (h : r ∈ opcodes) : r.handler.Composed := by
  by_cases hname : r.info.name = "DIVIDE"
  · rw [row_divide h hname]
    refine closed_composed.computing2 fun a b => ?_
    by_cases hoverflow : Val.div a b = .error .overflow
    · rw [hoverflow]
      exact .abort _
    · exact closed_composed.reading.result hoverflow
  · exact closed_of_mem closed_composed h hname

end Reference

/-! ### Standard machines -/

/-- Every opcode that a machine knows runs the reference handler of its name. -/
def Machine.Standard (m : Machine) : Prop :=
  ∀ raw entry, m.table.get? raw = some entry →
    ∃ r ∈ Reference.opcodes, entry.name = r.info.name ∧ entry.handler = r.handler

/-- Every handler that a standard machine finds is composed. -/
theorem Machine.Standard.composed {m : Machine} (h : m.Standard) {raw : Int32}
    {entry : NamedHandler} (hget : m.table.get? raw = some entry) : entry.handler.Composed := by
  obtain ⟨r, hr, -, hhandler⟩ := h raw entry hget
  exact hhandler ▸ Reference.composed_of_mem hr

namespace HandlerRegistry

/-- What a registry holds was registered. -/
theorem mem_of_get?_ofList {handlers : List (String × Handler)} {name : String}
    {handler : Handler} (h : (ofList handlers).get? name = some handler) :
    (name, handler) ∈ handlers := by
  suffices hfold : ∀ registry : HandlerRegistry,
      (handlers.foldl (fun registry e => registry.register e.1 e.2) registry).get? name =
        some handler → registry.get? name = some handler ∨ (name, handler) ∈ handlers by
    exact (hfold {} h).resolve_left (by simp [get?])
  clear h
  induction handlers with
  | nil => exact fun registry h => .inl h
  | cons e rest ih =>
      intro registry h
      rcases ih _ h with hregistry | hrest
      · simp only [register, get?, Assoc.get?_insert] at hregistry
        split at hregistry
        · rename_i hname
          obtain rfl := Option.some.inj hregistry
          exact .inr (hname ▸ List.mem_cons_self)
        · exact .inl hregistry
      · exact .inr (List.mem_cons_of_mem _ hrest)

end HandlerRegistry

namespace HandlerTable

/-- A table in which every filled place satisfies a predicate. -/
def All (P : NamedHandler → Prop) (table : HandlerTable) : Prop :=
  ∀ (i : Nat) (entry : NamedHandler), table.places[i]? = some (some entry) → P entry

theorem all_ofSize (P : NamedHandler → Prop) (size : Nat) : (ofSize size).All P := by
  intro i entry h
  simp [ofSize, Array.getElem?_replicate] at h

theorem All.set {P : NamedHandler → Prop} {table : HandlerTable} (h : table.All P) (id : Nat)
    (entry : NamedHandler) (hentry : P entry) : (table.set id entry).All P := by
  intro i e he
  simp only [HandlerTable.set, Array.getElem?_setIfInBounds, Array.getElem?_append,
    Array.getElem?_replicate] at he
  split at he
  · split at he
    · obtain rfl := Option.some.inj (Option.some.inj he)
      exact hentry
    · cases he
  · split at he
    · exact h i e he
    · split at he <;> cases he

/-- A table holds what the registry holds under the names of the map. -/
theorem all_fill (map : OpcodeMap) (registry : HandlerRegistry) :
    (fill map registry).All fun entry => registry.get? entry.name = some entry.handler := by
  refine List.foldlRecOn map.entries _ (all_ofSize _ _) fun table h e _ => ?_
  cases hget : registry.get? e.2.name with
  | none => simpa [hget] using h
  | some handler => simpa [hget] using h.set e.1 ⟨e.2.name, handler⟩ hget

theorem All.get? {P : NamedHandler → Prop} {table : HandlerTable} (h : table.All P)
    {raw : Int32} {entry : NamedHandler} (hget : table.get? raw = some entry) : P entry := by
  rw [HandlerTable.get?] at hget
  split at hget
  · cases hget
  · exact h _ entry (Option.join_eq_some_iff.mp hget)

end HandlerTable

/-- **Binding any opcode map to the reference handlers gives a standard machine.** -/
theorem Machine.standard_of_bind {m : Machine} {map : OpcodeMap}
    (h : HandlerTable.bind map Reference.registry = .ok m.table) : m.Standard := by
  intro raw entry hget
  have htable : HandlerTable.fill map Reference.registry = m.table := by
    simp only [HandlerTable.bind] at h
    split at h
    · cases h
    · exact Except.ok.inj h
  have hregistry := (htable ▸ HandlerTable.all_fill map Reference.registry).get? hget
  obtain ⟨r, hr, heq⟩ := List.mem_map.mp (HandlerRegistry.mem_of_get?_ofList hregistry)
  obtain ⟨hname, hhandler⟩ := Prod.mk.inj heq
  exact ⟨r, hr, hname.symm, hhandler.symm⟩

/-! ### The reference machine -/

namespace Reference

/-- The table of the reference opcodes under their own numbers. -/
def table : HandlerTable :=
  ⟨(opcodes.map fun r => some ⟨r.info.name, r.handler⟩).toArray⟩

/-- The machine that runs a program of reference opcodes under their own numbers. -/
def machine (program : Program) : Machine := { program, table }

/-- Binding the map of the reference opcodes to their handlers gives each its own place. -/
theorem bind_map_registry : HandlerTable.bind map registry = .ok table := by
  cbv

theorem standard_machine (program : Program) : (machine program).Standard :=
  Machine.standard_of_bind bind_map_registry

end Reference

end TaggedBytecode
