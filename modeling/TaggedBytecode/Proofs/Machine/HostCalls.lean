import TaggedBytecode.Proofs.Machine.Nesting

/-!
# Calls of the Host

The instructions that call read a value and some arguments. If the value is a string, they call
the host, and they do so once: what comes back is written to the destination. No other
instruction has to do with the host. So the **host calls** of a run can be read off its states,
and a run depends on its host through the answers to these calls only.

## Main definitions

* `HostCall` — a call of a capability.
* `Machine.hostCall?`, `Machine.hostCalls` — the host calls of a step and of several steps.
* `HandlerM.Passive`, `HandlerM.HostFree` — computations that have nothing to do with the host.

## Main results

* `Machine.Standard.exists_callHost` — the host calls are made.
* `Machine.step_withHost`, `Machine.iterate_withHost` — no others are: hosts that answer the
  host calls of a run alike give the same run.
-/

namespace TaggedBytecode

/-- A call of a capability of the host. -/
structure HostCall where
  name : String
  args : List Val

/-- The call of the host that calling a value is. -/
def HostCall.ofCallee? : Val → List Val → Option HostCall
  | .str name, args => some ⟨name, args⟩
  | _, _ => none

/-- The answer of a host to a call, and the world after it. -/
def Host.answer (host : Host) (call : HostCall) (world : World) : Except Failure Val × World :=
  (host.call call.name call.args).run.run world

namespace Reference

/-- The names of the instructions that call, with the numbers of their arguments. -/
def arities : List (String × Nat) :=
  opcodes.filterMap fun r =>
    match r.info.operands with
    | .call count => some (r.info.name, count)
    | _ => none

/-- Reads a value and the arguments that it is called with, and goes on with them. -/
def calling {α : Type} (count : Nat) (next : Val → List Val → HandlerM α) : HandlerM α := do
  let callee ← HandlerM.operand
  let args ← HandlerM.operands count
  next callee args

/-- The call of the host that the instruction of a name makes once it is begun, if it makes
one. -/
def hostCall? (name : String) (setup : Setup) (site : Site) (begun : Execution) :
    Option HostCall :=
  match Assoc.get? name arities with
  | none => none
  | some count =>
    match calling count (fun callee args => return HostCall.ofCallee? callee args)
        setup site begun with
    | .finished (.ok call?) _ => call?
    | _ => none

end Reference

namespace Machine

/-- The call of the host that the next instruction makes, if it makes one. -/
def hostCall? (m : Machine) (state : MachineState) : Option HostCall :=
  match m.fetch state.base state.exec with
  | (.error _, _) => none
  | (.ok (i, _), begun) => Reference.hostCall? i.name m.toSetup i.toSite begun

/-- The calls of the host in the next `n` steps, in order. -/
def hostCalls (m : Machine) : (n : Nat) → MachineState → List HostCall
  | 0, _ => []
  | n + 1, state =>
    (m.hostCall? state).toList ++
    match m.step state with
    | .running next => hostCalls m n next
    | _ => []

end Machine

/-! ### Computations without the host -/

namespace HandlerM

variable {α β : Type}

/-- A computation that makes the same progress whatever the host is. -/
def HostFree (m : HandlerM α) : Prop :=
  ∀ (setup : Setup) host site exec, m { setup with host } site exec = m setup site exec

/-- Being independent of the host lasts under composition, and the operations that stay inside
the machine are. -/
theorem closedInside_hostFree : ClosedInside HostFree where
  pure _ := fun _ _ _ _ => rfl
  bind hm hf := fun setup host site exec =>
    congrArg₂ Progress.bind (hm setup host site exec)
      (funext fun a => funext fun exec => hf a setup host site exec)
  throw _ := fun _ _ _ _ => rfl
  context := fun _ _ _ _ => rfl
  constant := fun _ _ _ _ => rfl
  lookUp _ := fun _ _ _ _ => rfl
  write _ := fun _ _ _ _ => rfl
  readVar := fun _ _ _ _ => rfl
  jump _ := fun _ _ _ _ => rfl
  assign _ _ := fun _ _ _ _ => rfl
  pushScope _ := fun _ _ _ _ => rfl
  popScope := fun _ _ _ _ => rfl
  clearHandler := fun _ _ _ _ => rfl
  takePending := fun _ _ _ _ => rfl
  newIdentity := fun _ _ _ _ => rfl
  call _ _ := fun _ _ _ _ => rfl

/-- A computation that finishes, leaves the world as it is and depends on no host. -/
def Passive (m : HandlerM α) : Prop :=
  ∀ (setup : Setup) (site : Site) (exec : Execution), ∃ reply after,
    after.world = exec.world ∧
      ∀ host, m { setup with host } site exec = .finished reply after

theorem Passive.bind {m : HandlerM α} {f : α → HandlerM β} (hm : m.Passive)
    (hf : ∀ a, (f a).Passive) : (m >>= f).Passive := by
  intro setup site exec
  obtain ⟨reply, mid, hworld, hfinish⟩ := hm setup site exec
  cases reply with
  | error thrown =>
      refine ⟨.error thrown, mid, hworld, fun host => ?_⟩
      change (m _ site exec).bind _ = _
      rw [hfinish host]
      rfl
  | ok a =>
      obtain ⟨reply, after, hworld', hfinish'⟩ := hf a setup site mid
      refine ⟨reply, after, hworld'.trans hworld, fun host => ?_⟩
      change (m _ site exec).bind _ = _
      rw [hfinish host]
      exact hfinish' host

theorem passive_constant : constant.Passive := by
  intro setup site exec
  simp only [constant, onContext]
  split
  · refine ⟨_, _, ?_, fun _ => rfl⟩
    rfl
  · exact ⟨_, exec, rfl, fun _ => rfl⟩

theorem passive_lookUp (slot : Nat) : (lookUp slot).Passive := by
  intro setup site exec
  simp only [lookUp]
  split <;> exact ⟨_, exec, rfl, fun _ => rfl⟩

/-- Reading operands is passive. -/
theorem closedReading_passive : ClosedReading Passive where
  pure a := fun _ _ exec => ⟨.ok a, exec, rfl, fun _ => rfl⟩
  bind := Passive.bind
  throw _ := fun _ _ exec => ⟨_, exec, rfl, fun _ => rfl⟩
  context := fun _ _ exec => ⟨_, exec, rfl, fun _ => rfl⟩
  constant := passive_constant
  lookUp := passive_lookUp

end HandlerM

/-! ### Instructions that call -/

namespace Reference

open HandlerM (HostFree closedInside_hostFree closedReading_passive)

/-- Reading what to call fails, or it goes on with a value and arguments, in the world as it
was. Neither depends on the host or on what comes next. -/
theorem calling_cases (count : Nat) (setup : Setup) (site : Site) (exec : Execution) :
    (∃ thrown mid, ∀ {α : Type} (next : Val → List Val → HandlerM α) host,
      calling count next { setup with host } site exec = .finished (.error thrown) mid) ∨
    ∃ callee args mid, mid.world = exec.world ∧
      ∀ {α : Type} (next : Val → List Val → HandlerM α) host,
        calling count next { setup with host } site exec =
          next callee args { setup with host } site mid := by
  obtain ⟨reply, read, hworld, hcallee⟩ := closedReading_passive.operand setup site exec
  cases reply with
  | error thrown =>
      refine .inl ⟨thrown, read, fun next host => ?_⟩
      change (HandlerM.operand _ site exec).bind _ = _
      rw [hcallee host]
      rfl
  | ok callee =>
      obtain ⟨reply, mid, hworld', hargs⟩ := closedReading_passive.operands count setup site read
      have hread : ∀ {α : Type} (next : Val → List Val → HandlerM α) host,
          calling count next { setup with host } site exec =
            (Progress.finished reply mid).bind
              fun args exec => next callee args { setup with host } site exec := by
        intro α next host
        change (HandlerM.operand _ site exec).bind _ = _
        rw [hcallee host]
        change (HandlerM.operands count _ site read).bind _ = _
        rw [hargs host]
      cases reply with
      | error thrown => exact .inl ⟨thrown, mid, hread⟩
      | ok args => exact .inr ⟨callee, args, mid, hworld'.trans hworld, hread⟩

/-- What instructions that call do with a value and arguments. -/
structure Calls (next : Val → List Val → Handler) : Prop where
  /-- They call the host, and go on without it. -/
  host : ∀ {callee args call}, HostCall.ofCallee? callee args = some call →
    ∃ rest : Val → Handler, (∀ v, (rest v).HostFree) ∧
      next callee args = HandlerM.callHost call.name call.args >>= rest
  /-- They do without the host altogether. -/
  inside : ∀ {callee args}, HostCall.ofCallee? callee args = none → (next callee args).HostFree

/-- Writing what comes back is independent of the host. -/
theorem hostFree_writing (v : Val) :
    (do HandlerM.write v; return .continue : Handler).HostFree :=
  closedInside_hostFree.bind (closedInside_hostFree.write v) fun _ => closedInside_hostFree.pure _

theorem exists_calls_callWith (count : Nat) :
    ∃ next, callWith count = calling count next ∧ Calls next := by
  refine ⟨_, rfl, ⟨fun {callee args call} hcall => ?_, fun {callee args} hcall => ?_⟩⟩
  · cases callee with
    | str name =>
        obtain rfl := Option.some.inj hcall
        exact ⟨_, hostFree_writing, rfl⟩
    | _ => cases hcall
  · have hinvoke : (invoke callee args).HostFree :=
      closedInside_hostFree.invoke fun name hname => by
        rw [hname] at hcall
        cases hcall
    exact closedInside_hostFree.bind hinvoke hostFree_writing

theorem exists_calls_hostCallWith (count : Nat) :
    ∃ next, hostCallWith count = calling count next ∧ Calls next := by
  refine ⟨_, rfl, ⟨fun {callee args call} hcall => ?_, fun {callee args} hcall => ?_⟩⟩
  · cases callee with
    | str name =>
        obtain rfl := Option.some.inj hcall
        exact ⟨_, hostFree_writing, rfl⟩
    | _ => cases hcall
  · cases callee with
    | str name => cases hcall
    | _ => exact closedInside_hostFree.reading.error _

theorem exists_calls_of_mem {r : OpcodeRow} {count : Nat} (h : r ∈ opcodes)
    (hoperands : r.info.operands = .call count) :
    ∃ next, r.handler = calling count next ∧ Calls next := by
  rcases row_call h hoperands with hhandler | hhandler
  · exact hhandler ▸ exists_calls_callWith count
  · exact hhandler ▸ exists_calls_hostCallWith count

/-- The instructions that cannot call are independent of the host. -/
theorem hostFree_of_mem {r : OpcodeRow} (h : r ∈ opcodes)
    (hoperands : ∀ count, r.info.operands ≠ .call count) : r.handler.HostFree := by
  by_cases hname : r.info.name = "DIVIDE"
  · rw [row_divide h hname]
    refine closedInside_hostFree.computing2 fun a b => ?_
    by_cases hoverflow : Val.div a b = .error .overflow
    · rw [hoverflow]
      exact fun _ _ _ _ => rfl
    · exact closedInside_hostFree.reading.result hoverflow
  · exact inside_of_mem closedInside_hostFree h hname hoperands

theorem arities_eq : arities =
    [("CALL_FUNCTION", 1), ("HOST_CALL", 1), ("CALL_FUNC_0ARGS", 0), ("CALL_FUNC_2ARGS", 2),
      ("HOST_CALL_2ARGS", 2)] :=
  rfl

/-- Names tell the instructions that call. -/
theorem arity_eq_some_iff {r : OpcodeRow} (h : r ∈ opcodes) {count : Nat} :
    Assoc.get? r.info.name arities = some count ↔ r.info.operands = .call count := by
  revert r
  simp [opcodes, row, arities_eq, Assoc.get?]

/-- How an instruction that is begun has to do with the host: not at all, or by a single call
in the world that it was begun in. -/
inductive Asks (handler : Handler) (setup : Setup) (site : Site) (begun : Execution) :
    Option HostCall → Prop
  | nothing :
      (∀ host, handler { setup with host } site begun = handler setup site begun) →
      Asks handler setup site begun none
  | call {call : HostCall} {mid : Execution} {rest : Val → Handler} :
      mid.world = begun.world → (∀ v, (rest v).HostFree) →
      (∀ host, handler { setup with host } site begun =
        (HandlerM.callHost call.name call.args >>= rest) { setup with host } site mid) →
      Asks handler setup site begun (some call)

/-- Hosts that answer a call alike are called alike. -/
theorem callHost_withHost {setup : Setup} {site : Site} {exec : Execution} {host : Host}
    {call : HostCall} (h : host.answer call exec.world = setup.host.answer call exec.world) :
    HandlerM.callHost call.name call.args { setup with host } site exec =
      HandlerM.callHost call.name call.args setup site exec := by
  simp only [Host.answer] at h
  simp only [HandlerM.callHost]
  rw [h]

/-- Hosts that answer what is asked alike make no difference. -/
theorem Asks.withHost {handler : Handler} {setup : Setup} {site : Site} {begun : Execution}
    {call? : Option HostCall} (h : Asks handler setup site begun call?) {host : Host}
    (hanswer : ∀ call, call? = some call →
      host.answer call begun.world = setup.host.answer call begun.world) :
    handler { setup with host } site begun = handler setup site begun := by
  cases h with
  | nothing hfree => exact hfree host
  | @call call mid rest hworld hrest hhandler =>
      have hsame := hanswer call rfl
      rw [← hworld] at hsame
      rw [hhandler host]
      refine Eq.trans ?_ (hhandler setup.host).symm
      exact congrArg₂ Progress.bind (callHost_withHost hsame)
        (funext fun v => funext fun exec => hrest v setup host site exec)

/-- **What reference opcodes ask the host.** -/
theorem asks_of_mem {r : OpcodeRow} (h : r ∈ opcodes) (setup : Setup) (site : Site)
    (begun : Execution) :
    Asks r.handler setup site begun (hostCall? r.info.name setup site begun) := by
  rw [hostCall?]
  cases harity : Assoc.get? r.info.name arities with
  | none =>
      refine .nothing fun host => hostFree_of_mem h (fun count hcount => ?_) setup host site begun
      rw [(arity_eq_some_iff h).mpr hcount] at harity
      cases harity
  | some count =>
      obtain ⟨next, hhandler, hcalls⟩ := exists_calls_of_mem h ((arity_eq_some_iff h).mp harity)
      rw [hhandler]
      rcases calling_cases count setup site begun with
        ⟨thrown, mid, hthrows⟩ | ⟨callee, args, mid, hworld, hreads⟩
      · have hquery := hthrows (fun callee args => return HostCall.ofCallee? callee args) setup.host
        simp only [hquery]
        exact .nothing fun host => (hthrows next host).trans (hthrows next setup.host).symm
      · have hquery : calling count (fun callee args => return HostCall.ofCallee? callee args)
            setup site begun = .finished (.ok (HostCall.ofCallee? callee args)) mid :=
          hreads _ setup.host
        simp only [hquery]
        cases hcall : HostCall.ofCallee? callee args with
        | none =>
            refine .nothing fun host => ?_
            rw [hreads next host, hcalls.inside hcall]
            exact (hreads next setup.host).symm
        | some call =>
            obtain ⟨rest, hrest, hnext⟩ := hcalls.host hcall
            exact .call hworld hrest fun host => hnext ▸ hreads next host

end Reference

/-! ### The host of a run -/

namespace Machine

variable {m : Machine} {state : MachineState} {i : Instruction} {handler : Handler}
  {begun : Execution} {call : HostCall}

theorem Standard.asks (hm : m.Standard)
    (hfetch : m.fetch state.base state.exec = (.ok (i, handler), begun)) :
    Reference.Asks handler m.toSetup i.toSite begun (m.hostCall? state) := by
  obtain ⟨r, hr, hname, rfl⟩ := hm.exists_row_of_fetch hfetch
  simp only [hostCall?, hfetch, hname]
  exact Reference.asks_of_mem hr _ _ _

/-- **The host calls are made**: the instruction comes to the call in the world of its fetch
and goes on with the answer. -/
theorem Standard.exists_callHost (hm : m.Standard)
    (hfetch : m.fetch state.base state.exec = (.ok (i, handler), begun))
    (hcall : m.hostCall? state = some call) :
    ∃ mid rest, mid.world = state.exec.world ∧
      handler m.toSetup i.toSite begun =
        (HandlerM.callHost call.name call.args >>= rest : Handler) m.toSetup i.toSite mid := by
  have hasks := hm.asks hfetch
  rw [hcall] at hasks
  obtain ⟨rfl, -⟩ := fetch_eq_ok hfetch
  cases hasks with
  | call hworld _ hhandler => exact ⟨_, _, hworld, hhandler m.host⟩

/-- **A step depends on the host only through the answer to its host call.** -/
theorem step_withHost (hm : m.Standard) {host : Host}
    (hanswer : ∀ call, m.hostCall? state = some call →
      host.answer call state.exec.world = m.host.answer call state.exec.world) :
    ({ m with host } : Machine).step state = m.step state := by
  have hsame : ({ m with host } : Machine).fetch state.base state.exec =
      m.fetch state.base state.exec := rfl
  rw [step, step, hsame]
  cases hfetch : m.fetch state.base state.exec with
  | mk started begun =>
      cases started with
      | error fault => rfl
      | ok started =>
          obtain ⟨i, handler⟩ := started
          have hasks := hm.asks hfetch
          obtain ⟨rfl, -⟩ := fetch_eq_ok hfetch
          exact congrArg (fun p => carry (turn i p) state.suspended) (hasks.withHost hanswer)

/-- **A run depends on its host only through the answers to its host calls.** -/
theorem iterate_withHost (hm : m.Standard) {host : Host} (n : Nat) (first : MachineState)
    (hanswer : ∀ k < n, ∀ state, m.iterate k first = .running state →
      ∀ call, m.hostCall? state = some call →
        host.answer call state.exec.world = m.host.answer call state.exec.world) :
    ({ m with host } : Machine).iterate n first = m.iterate n first := by
  induction n with
  | zero => rfl
  | succ n ih =>
      rw [iterate_succ, iterate_succ, ih fun k hk => hanswer k (Nat.lt_succ_of_lt hk)]
      cases hn : m.iterate n first with
      | running state => exact step_withHost hm (hanswer n (Nat.lt_succ_self n) state hn)
      | _ => rfl

end Machine

end TaggedBytecode
