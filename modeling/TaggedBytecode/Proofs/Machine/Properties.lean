import TaggedBytecode.Proofs.Context.Variables
import TaggedBytecode.Proofs.Machine.Nesting
import TaggedBytecode.Proofs.Machine.Operands
import TaggedBytecode.Proofs.Val.Containers

/-!
# Properties After Writes

A property write assigns the updated container to its variable, so that a property read of this
variable reads what the write left, as long as the variable holds it. A list overlooks what was
written under a key that is no number.

## Main definitions

* `Machine.SetsProperty`, `Machine.GetsProperty` — the next instruction writes or reads a
  property.

## Main results

* `Machine.property_reads_back` — which property writes can be read back.
-/

namespace TaggedBytecode

/-! ### Instructions -/

namespace HandlerM

variable {setup : Setup} {site : Site} {exec after : Execution} {slot : Nat}

/-- Reading a constant changes no variable. -/
theorem exists_constant (setup : Setup) (site : Site) (exec : Execution) :
    ∃ reply after, constant setup site exec = .finished reply after ∧
      ∀ other, after.context.resolve other = exec.context.resolve other := by
  rw [constant, onContext]
  cases setup.decoder.constant setup.program exec.context.ip with
  | error fault => exact ⟨_, _, rfl, fun _ => rfl⟩
  | ok read => exact ⟨_, _, rfl, exec.context.resolve_setIp read.2⟩

/-- Reading an operand changes no variable. -/
theorem resolve_of_operand {reply : Except Thrown Val}
    (h : operand setup site exec = .finished reply after) (other : Nat) :
    after.context.resolve other = exec.context.resolve other := by
  obtain ⟨read, mid, hconstant, hresolve⟩ := exists_constant setup site exec
  change (constant setup site exec).bind _ = _ at h
  rw [hconstant] at h
  rw [← hresolve]
  cases read with
  | error thrown => cases h; rfl
  | ok c =>
      cases c with
      | varRef slot =>
          change lookUp slot setup site mid = _ at h
          rw [lookUp] at h
          split at h <;> cases h <;> rfl
      | _ => cases h; rfl

/-- What names a variable stands for the value of the variable where it is read as an operand. -/
theorem operand_of_binding (h : binding setup site exec = .finished (.ok slot) after) :
    operand setup site exec = lookUp slot setup site after ∧
      ∀ other, after.context.resolve other = exec.context.resolve other := by
  obtain ⟨read, mid, hconstant, hresolve⟩ := exists_constant setup site exec
  change (constant setup site exec).bind _ = _ at h
  change (constant setup site exec).bind _ = _ ∧ _
  rw [hconstant] at h ⊢
  cases read with
  | error thrown => cases h
  | ok c =>
      cases c with
      | varRef slot =>
          cases h
          exact ⟨rfl, hresolve⟩
      | _ => cases h

end HandlerM

namespace Reference

open HandlerM (binding operand operand_of_binding resolve_of_operand)

variable {setup : Setup} {site : Site} {begun keyed valued after : Execution} {slot dest : Nat}
  {key value : Val}

/-- The next operands are a variable and a key. -/
def NamesProperty (setup : Setup) (site : Site) (begun : Execution) (slot : Nat) (key : Val)
    (keyed : Execution) : Prop :=
  ∃ named, binding setup site begun = .finished (.ok slot) named ∧
    operand setup site named = .finished (.ok key) keyed

/-- What a property write does, once it has read its operands. -/
theorem propertySet_eq (hnames : NamesProperty setup site begun slot key keyed)
    (hvalue : operand setup site keyed = .finished (.ok value) valued) :
    propertySet setup site begun =
      match valued.context.resolve slot with
      | none => .finished (.error (.unbound slot)) valued
      | some object =>
        match object.setProperty valued.world.allocate.1 key value with
        | .ok updated => .finished (.ok .continue)
            { valued with
              world := valued.world.allocate.2
              context := valued.context.assign slot updated }
        | .error refusal => .finished (.error (.error ("TypeError: " ++ refusal.message)))
            { valued with world := valued.world.allocate.2 } := by
  obtain ⟨named, hnamed, hkey⟩ := hnames
  change (binding setup site begun).bind _ = _
  rw [hnamed]
  change (operand setup site named).bind _ = _
  rw [hkey]
  change (operand setup site keyed).bind _ = _
  rw [hvalue]
  change (HandlerM.lookUp slot setup site valued).bind _ = _
  rw [HandlerM.lookUp]
  cases valued.context.resolve slot with
  | none => rfl
  | some object =>
      change (match object.setProperty valued.world.allocate.1 key value with
        | .ok updated => do
          HandlerM.assign slot updated
          return .continue
        | .error refusal => typeError refusal.message : Handler) setup site _ = _
      dsimp only
      cases object.setProperty valued.world.allocate.1 key value <;> rfl

/-- A property write that does not throw leaves the updated container in its variable. -/
theorem propertySet_of_not_throws (hnames : NamesProperty setup site begun slot key keyed)
    (hvalue : operand setup site keyed = .finished (.ok value) valued)
    (hthrows : ∀ thrown after, propertySet setup site begun ≠ .finished (.error thrown) after) :
    ∃ after identity object updated,
      propertySet setup site begun = .finished (.ok .continue) after ∧
      begun.context.resolve slot = some object ∧
      object.setProperty identity key value = .ok updated ∧
      after.context.resolve slot = some updated := by
  have hset := propertySet_eq hnames hvalue
  rw [hset] at hthrows
  split at hthrows
  · exact absurd rfl (hthrows _ _)
  · rename_i object hobject
    split at hthrows
    · rename_i updated hupdated
      have hbegun : begun.context.resolve slot = some object := by
        obtain ⟨named, hnamed, hkey⟩ := hnames
        rw [← (operand_of_binding hnamed).2, ← resolve_of_operand hkey, ← resolve_of_operand hvalue,
          hobject]
      rw [hobject] at hset
      simp only [hupdated] at hset
      exact ⟨_, _, object, updated, hset, hbegun, hupdated,
        (valued.context.resolve_assign slot slot updated).trans (if_pos rfl)⟩
    · exact absurd rfl (hthrows _ _)

/-- What a property read does of a container in a variable: it writes the property to the
destination. -/
theorem propertyGet_eq (hnames : NamesProperty setup site begun slot key keyed) {container : Val}
    (hcontainer : begun.context.resolve slot = some container)
    (hnullish : container.isNullish = false) {position : Nat}
    (hdest : Decoder.slot setup.program keyed.context.ip = .ok (dest, position)) :
    propertyGet setup site begun = .finished (.ok .continue)
      { keyed with
        context := (keyed.context.setIp position).store dest (container.getProperty key) } := by
  obtain ⟨named, hnamed, hkey⟩ := hnames
  obtain ⟨hoperand, hresolve⟩ := operand_of_binding hnamed
  have hread : operand setup site begun = .finished (.ok container) named := by
    rw [hoperand, HandlerM.lookUp, hresolve, hcontainer]
  change (operand setup site begun).bind _ = _
  rw [hread]
  change (operand setup site named).bind _ = _
  rw [hkey]
  change ((if container.isNullish then _ else (return container.getProperty key) :
    HandlerM Val) setup site keyed).bind _ = _
  rw [if_neg (Bool.eq_false_iff.mp hnullish)]
  change (HandlerM.write (container.getProperty key) setup site keyed).bind _ = _
  have hwrite : HandlerM.write (container.getProperty key) setup site keyed =
      .finished (.ok ()) { keyed with
        context := (keyed.context.setIp position).store dest (container.getProperty key) } := by
    simp only [HandlerM.write, HandlerM.onContext, Context.write, hdest, bind, Except.bind, pure,
      Except.pure, Except.map]
  rw [hwrite]
  rfl

theorem row_propertySet {r : OpcodeRow} (h : r ∈ opcodes) (hname : r.info.name = "PROPERTY_SET") :
    r.handler = propertySet := by
  revert r
  simp [opcodes, row]

theorem row_propertyGet {r : OpcodeRow} (h : r ∈ opcodes) (hname : r.info.name = "PROPERTY_GET") :
    r.handler = propertyGet := by
  revert r
  simp [opcodes, row]

end Reference

/-! ### Runs -/

namespace Machine

open Reference (NamesProperty)

variable {m : Machine} {state later : MachineState} {slot dest : Nat} {key value : Val}

/-- The next instruction writes a property of a variable, and it does not throw. -/
def SetsProperty (m : Machine) (state : MachineState) (slot : Nat) (key value : Val) : Prop :=
  ∃ i handler begun keyed valued, m.fetch state.base state.exec = (.ok (i, handler), begun) ∧
    i.name = "PROPERTY_SET" ∧ NamesProperty m.toSetup i.toSite begun slot key keyed ∧
    HandlerM.operand m.toSetup i.toSite keyed = .finished (.ok value) valued ∧
    ∀ thrown after, handler m.toSetup i.toSite begun ≠ .finished (.error thrown) after

/-- The next instruction reads a property of a variable and has a destination. -/
def GetsProperty (m : Machine) (state : MachineState) (slot : Nat) (key : Val) (dest : Nat) :
    Prop :=
  ∃ i handler begun keyed position,
    m.fetch state.base state.exec = (.ok (i, handler), begun) ∧ i.name = "PROPERTY_GET" ∧
    NamesProperty m.toSetup i.toSite begun slot key keyed ∧
    Decoder.slot m.program keyed.context.ip = .ok (dest, position)

/-- A property write that does not throw leads to the next fetch, with the updated container in
the variable. -/
theorem SetsProperty.step (hm : m.Standard) (hset : m.SetsProperty state slot key value) :
    ∃ next identity object updated, m.step state = .running next ∧
      next.suspended = state.suspended ∧ state.exec.context.resolve slot = some object ∧
      object.setProperty identity key value = .ok updated ∧
      next.exec.context.resolve slot = some updated := by
  obtain ⟨i, handler, begun, keyed, valued, hfetch, hname, hnames, hvalue, hthrows⟩ := hset
  obtain ⟨r, hr, hrow, rfl⟩ := hm.exists_row_of_fetch hfetch
  obtain ⟨rfl, -, -, -⟩ := fetch_eq_ok hfetch
  rw [Reference.row_propertySet hr (hrow ▸ hname)] at hfetch hthrows
  obtain ⟨after, identity, object, updated, hfinished, hobject, hupdated, hresolve⟩ :=
    Reference.propertySet_of_not_throws hnames hvalue hthrows
  have hbefore : state.exec.context.resolve slot = some object :=
    (state.exec.context.resolve_setIp _ slot).symm.trans hobject
  exact ⟨_, identity, object, updated, step_of_finished hfetch hfinished, rfl, hbefore, hupdated,
    hresolve⟩

/-- A property read of a container leads to the next fetch, with the property in the
destination. -/
theorem GetsProperty.step (hm : m.Standard) (hget : m.GetsProperty later slot key dest)
    {container : Val} (hcontainer : later.exec.context.resolve slot = some container)
    (hnullish : container.isNullish = false) :
    ∃ after, m.step later = .running after ∧ after.suspended = later.suspended ∧
      after.exec.context.resolve dest = some (container.getProperty key) := by
  obtain ⟨i, handler, begun, keyed, position, hfetch, hname, hnames, hdest⟩ := hget
  obtain ⟨r, hr, hrow, rfl⟩ := hm.exists_row_of_fetch hfetch
  obtain ⟨rfl, -, -, -⟩ := fetch_eq_ok hfetch
  rw [Reference.row_propertyGet hr (hrow ▸ hname)] at hfetch
  have hbegun : later.begun.exec.context.resolve slot = some container :=
    (later.exec.context.resolve_setIp _ slot).trans hcontainer
  have hfinished := Reference.propertyGet_eq hnames hbegun hnullish hdest
  refine ⟨_, step_of_finished hfetch hfinished, rfl, ?_⟩
  exact (Context.resolve_store _ dest dest _).trans (if_pos rfl)

/-- **Which property writes can be read back.** A container that was written under a key holds
the value under that key, except that a list is written under keys that are no numbers and not
read under them. So in a run of reference handlers, a property write that does not throw leads
on in the same call, with the variable's container updated. From then on, as long as the
variable holds what the write left in it, every property read of the variable under that key
leads on with the value in its destination, or with undefined where the read overlooks it. -/
theorem property_reads_back (hm : m.Standard) (identity : Nat) (c key value : Val)
    (state : MachineState) (slot : Nat) :
    (∀ c', c.setProperty identity key value = .ok c' →
      c'.getProperty key = if c.overlooks key then .undefined else value) ∧
    (m.SetsProperty state slot key value →
      ∃ next fresh object updated, m.step state = .running next ∧
        next.suspended = state.suspended ∧ state.exec.context.resolve slot = some object ∧
        object.setProperty fresh key value = .ok updated ∧
        next.exec.context.resolve slot = some updated ∧
        ∀ later dest, later.exec.context.resolve slot = some updated →
          m.GetsProperty later slot key dest →
          ∃ after, m.step later = .running after ∧ after.suspended = later.suspended ∧
            after.exec.context.resolve dest =
              some (if object.overlooks key then .undefined else value)) := by
  refine ⟨fun c' => Val.getProperty_of_setProperty, fun hset => ?_⟩
  obtain ⟨next, fresh, object, updated, hstep, hstack, hobject, hupdated, hresolve⟩ :=
    hset.step hm
  refine ⟨next, fresh, object, updated, hstep, hstack, hobject, hupdated, hresolve,
    fun later dest hkept hget => ?_⟩
  rw [← Val.getProperty_of_setProperty hupdated]
  exact hget.step hm hkept (Val.isNullish_of_setProperty hupdated)

/-- A program that writes `7` to `v0` under the key `true` and reads it into `v1`. -/
def writeAndRead : Machine :=
  Reference.machine #[19, 0, 22, 15, 18, 0, 22, 32]

/-- Before its first fetch, with an empty map in `v0`. -/
def emptyMap : MachineState where
  exec := { context := (Context.start 8).store 0 (.map 0 []) }

theorem property_reads_back_writeAndRead :
    writeAndRead.Standard ∧
    (∃ c', Val.setProperty 1 (.map 0 []) (.bool true) (.int 7) = .ok c' ∧
      c'.getProperty (.bool true) = .int 7) ∧
    writeAndRead.SetsProperty emptyMap 0 (.bool true) (.int 7) ∧
    ∃ next after, writeAndRead.step emptyMap = .running next ∧
      writeAndRead.GetsProperty next 0 (.bool true) 1 ∧ writeAndRead.step next = .running after ∧
      after.exec.context.resolve 1 = some (.int 7) := by
  have hm : writeAndRead.Standard := Reference.standard_machine _
  obtain ⟨hvalue, hrun⟩ :=
    property_reads_back hm 1 (.map 0 []) (.bool true) (.int 7) emptyMap 0
  have hset : writeAndRead.SetsProperty emptyMap 0 (.bool true) (.int 7) := by
    refine ⟨_, _, _, _, _, rfl, rfl, ⟨_, rfl, rfl⟩, rfl, fun thrown after hthrows => ?_⟩
    have hdone : Progress.finished (.ok Flow.continue) _ = _ := hthrows
    cases hdone
  obtain ⟨next, _, object, updated, hstep, -, hobject, -, hupdated, hreads⟩ := hrun hset
  have hget : writeAndRead.GetsProperty next 0 (.bool true) 1 := by
    obtain rfl := Status.running.inj hstep
    exact ⟨_, _, _, _, _, rfl, rfl, ⟨_, rfl, rfl⟩, rfl⟩
  obtain ⟨after, hafter, -, hresolve⟩ := hreads next 1 hupdated hget
  refine ⟨hm, ⟨_, rfl, hvalue _ rfl⟩, hset, next, after, hstep, hget, hafter, ?_⟩
  obtain rfl := Option.some.inj hobject
  exact hresolve

/-- A list is written under the text of a numeral and not read under it. -/
theorem not_property_reads_back_numeral :
    ∃ c', Val.setProperty 1 (.list 0 []) (.str "0") (.int 7) = .ok c' ∧
      c'.getProperty (.str "0") = .undefined ∧ c'.getProperty (.str "0") ≠ .int 7 := by
  have hindex : (Val.str "0").toNumber.toIndex? = some 0 := by decide +kernel
  have hset : Val.setProperty 1 (.list 0 []) (.str "0") (.int 7) = .ok (.list 1 [.int 7]) := by
    rw [Val.setProperty, hindex]
    rfl
  exact ⟨_, hset, rfl, fun h => by cases h⟩

end Machine

end TaggedBytecode
