import TaggedBytecode.Proofs.Machine.FrameStack
import TaggedBytecode.Proofs.Machine.NextFetch

/-!
# Instruction Boundaries

A run fetches an instruction where the handler of the instruction before it stopped reading. A
scan of the program lists an instruction where the layout of the instruction before it ends. As
long as an instruction continues and does not jump, both find the next **boundary** at the same
address, calls and scopes in between included.

There is one exception. The instruction that copies a variable reads a reference, and its
layout announces a constant. If the slot of the reference holds the marker of a float or of a
string, the run goes on behind that one slot, while the scan takes the payload along, or finds
that there is none.

## Main definitions

* `Machine.disassembler` — the scan of a machine's program.

## Main results

* `OpcodeMap.find?_foldl_insert` — a map finds what was inserted under distinct numbers.
* `Reference.exists_row` — the handler and the metadata of an opcode come from one row.
* `Machine.next_fetch_is_listed` — where runs and scans agree on boundaries.
-/

namespace TaggedBytecode

/-! ### One table for runs and scans -/

/-- A map finds what was inserted under distinct numbers. Induction on the rows. -/
theorem OpcodeMap.find?_foldl_insert {rows : List Reference.OpcodeRow}
    (hids : (rows.map (·.id)).Nodup) {r : Reference.OpcodeRow} (hr : r ∈ rows) (map : OpcodeMap) :
    (rows.foldl (fun map r => map.insert r.id r.info) map).find? r.id = some r.info := by
  have untouched : ∀ (rows : List Reference.OpcodeRow) (map : OpcodeMap) (id : Nat),
      id ∉ rows.map (·.id) →
        (rows.foldl (fun map r => map.insert r.id r.info) map).find? id = map.find? id := by
    intro rows
    induction rows with
    | nil => exact fun map id _ => rfl
    | cons first rest ih =>
        intro map id hid
        obtain ⟨hfirst, hrest⟩ := not_or.mp (List.mem_cons.not.mp hid)
        rw [List.foldl_cons, ih _ id hrest, find?, insert, Assoc.get?_insert, if_neg hfirst]
        rfl
  induction rows generalizing map with
  | nil => cases hr
  | cons first rest ih =>
      obtain ⟨hfirst, hrest⟩ := List.nodup_cons.mp hids
      rcases List.mem_cons.mp hr with rfl | htail
      · rw [List.foldl_cons, untouched rest _ r.id hfirst, find?, insert, Assoc.get?_insert,
          if_pos rfl]
      · exact ih hrest htail _

namespace Reference

/-- The reference opcodes are numbered by their places in the table. -/
theorem ids_eq : opcodes.map (·.id) = List.range 43 := by
  rfl

/-- What a run does for an opcode and what a scan knows of it are read off the same row. -/
theorem exists_row {raw : Int32} {entry : NamedHandler} (h : table.get? raw = some entry) :
    ∃ r ∈ opcodes, map.get? raw = some r.info ∧ entry = ⟨r.info.name, r.handler⟩ := by
  rw [HandlerTable.get?] at h
  split at h
  · cases h
  · rename_i hsign
    have hplace := Option.join_eq_some_iff.mp h
    simp only [table, List.getElem?_toArray, List.getElem?_map, Option.map_eq_some_iff,
      Option.some.injEq] at hplace
    obtain ⟨r, hr, rfl⟩ := hplace
    have hmem := List.mem_of_getElem? hr
    have hid : r.id = raw.toNatClampNeg := by
      have hids := congrArg (·[raw.toNatClampNeg]?) ids_eq
      simp only [List.getElem?_map, hr, Option.map_some] at hids
      obtain ⟨hlt, hget⟩ := List.getElem?_eq_some_iff.mp hids.symm
      exact hget.symm.trans (List.getElem_range hlt)
    refine ⟨r, hmem, ?_, rfl⟩
    rw [OpcodeMap.get?, if_neg hsign, ← hid]
    exact OpcodeMap.find?_foldl_insert (ids_eq ▸ List.nodup_range) hmem {}

/-- The row of the instruction that copies a variable. -/
theorem row_loadVar {r : OpcodeRow} (h : r ∈ opcodes) (hname : r.info.name = "LOAD_VAR") :
    r.handler = loadVar ∧ r.info.operands = .unary ∧ r.info.writes = true := by
  revert r
  simp [opcodes, row]

end Reference

namespace Machine

variable {m : Machine} {run : Run} {state : MachineState}

/-- In layered frames the current frame is a scope, unless it is the innermost call's own. -/
theorem current_kind_of_layered (hn : state.Nested m.maxCallDepth) (h : state.Layered)
    (hdepth : callBase state.suspended + 1 < state.exec.context.depth) :
    state.exec.context.current.kind = .scope := by
  rw [h _ _ state.exec.context.frame?_currentIndex]
  exact hn.stacked.layer_eq_scope (Nat.lt_of_succ_lt_succ hdepth)

/-- The scan of a machine's program with the metadata of the reference opcodes. -/
def disassembler (m : Machine) : Disassembler where
  program := m.program
  opcodes := Reference.map
  decoder := m.decoder

/-- **Where runs and scans agree on boundaries.** The opcodes and their handlers are the
reference ones, the markers are valid, and the frames before the first fetch, if a host
prepared any, are scopes. Whenever an instruction is fetched and ends in the order to continue
without a jump, its call fetches again, and the scan lists an instruction at its address. The
next fetch is where the scan goes on, without a failure, except for a copy of a variable whose
reference reads as the marker of a float or of a string. There they part. -/
theorem next_fetch_is_listed
    (hbind : HandlerTable.bind Reference.map Reference.registry = .ok m.table)
    (hvalid : m.decoder.markers.validate = .ok ()) (hrun : run.Fresh)
    (hfirst : MachineState.Layered { exec := run.exec }) (hstate : m.Reaches run state)
    {i : Instruction} {handler : Handler} {begun after : Execution}
    (hfetch : m.fetch state.base state.exec = (.ok (i, handler), begun))
    (hends : m.Ends i state.suspended (.ok .continue) after (handler m.toSetup i.toSite begun))
    (hjumps : ¬Reference.Jumps m.toSetup i.toSite begun i.name) :
    ∃ next listed position, m.NextFetch state next ∧
      m.disassembler.decodeAt i.address i.opcode = some (listed, position) ∧
      ((listed.failed = false ∧ next.exec.context.ip = position) ↔
        ¬(i.name = "LOAD_VAR" ∧ ∃ raw, m.program[i.address + 1]? = some raw ∧
          m.decoder.markers.AnnouncesPayload raw)) := by
  have hm := standard_of_bind hbind
  have hn := hstate.nested hm hrun
  have htable : m.table = Reference.table :=
    Except.ok.inj (hbind.symm.trans Reference.bind_map_registry)
  obtain ⟨rfl, hbase, -⟩ := fetch_eq_ok hfetch
  obtain ⟨haddress, -, hentry⟩ := entry_of_fetch hfetch
  obtain ⟨r, hr, hinfo, hnamed⟩ := Reference.exists_row (htable ▸ hentry)
  obtain ⟨hname, rfl⟩ := NamedHandler.mk.inj hnamed
  have hactive : m.Active state i _ state.suspended := .started hfetch
  obtain ⟨hyields, -⟩ := hends.yields hm hn hactive
  obtain ⟨next, hnext, hcontext⟩ := hends.exists_nextFetch hm hn hactive
  obtain ⟨listed, position, hdecode, hspans⟩ :=
    Disassembler.exists_decodeAt (d := m.disassembler) hinfo i.address
  refine ⟨next, listed, position, hnext, hdecode, ?_⟩
  have hip : state.begun.exec.context.ip = i.address + 1 := congrArg (· + 1) haddress.symm
  rw [hspans, hcontext, ← hip, hname]
  by_cases hcopy : r.info.name = "LOAD_VAR"
  · obtain ⟨hhandler, hoperands, hwrites⟩ := Reference.row_loadVar hr hcopy
    rw [hhandler] at hyields
    obtain ⟨source, target, mid, hsource, htarget⟩ := Reference.slots_of_yields_loadVar hyields
    simp only [hoperands, hwrites, hcopy, true_and]
    exact Decoder.spans_iff_of_slots hvalid hsource htarget
  · have hscope : i.base + 1 < state.begun.exec.context.depth →
        state.begun.exec.context.current.kind = .scope := fun hdepth =>
      current_kind_of_layered hn.begun ((hstate.layered_of_first hm hrun hfirst).begun hn)
        (hbase ▸ hdepth)
    have hfollows := Reference.followsLayout_of_mem hr hcopy m.toSetup i.toSite _ after hscope
      (hname ▸ hjumps) hyields
    simp only [hcopy, false_and, not_false_iff, iff_true]
    exact hfollows

/-- A call of a callee that enters a scope and returns from inside it, and a halt. -/
def callAndHalt : Machine :=
  Reference.machine #[38, 9, 0, 37, 32, 13, 25, 5]

theorem next_fetch_is_listed_callAndHalt :
    ∃ i handler begun after next listed,
      callAndHalt.fetch 0 callAndHalt.start.exec = (.ok (i, handler), begun) ∧
      callAndHalt.Ends i [] (.ok .continue) after (handler callAndHalt.toSetup i.toSite begun) ∧
      callAndHalt.NextFetch ⟨callAndHalt.start.exec, []⟩ next ∧
      callAndHalt.disassembler.decodeAt 0 38 = some (listed, 3) ∧
      listed.failed = false ∧ next.exec.context.ip = 3 := by
  have hrun : ∃ i begun opened resume j entered last k returning exec after,
      callAndHalt.fetch 0 callAndHalt.start.exec = (.ok (i, Reference.callWith 0), begun) ∧
      i.address = 0 ∧ i.opcode = 38 ∧ i.name = "CALL_FUNC_0ARGS" ∧
      Reference.callWith 0 callAndHalt.toSetup i.toSite begun = .suspended 1 opened resume ∧
      callAndHalt.fetch 1 opened = (.ok (j, Reference.tryEnter), entered) ∧
      turn j (Reference.tryEnter callAndHalt.toSetup j.toSite entered) = .goesOn last ∧
      callAndHalt.fetch 1 last = (.ok (k, Reference.returnValue), returning) ∧
      turn k (Reference.returnValue callAndHalt.toSetup k.toSite returning) =
        .leaves (.returned (.int 2)) exec ∧
      resume (.ok (.int 2)) exec = .finished (.ok .continue) after :=
    ⟨_, _, _, _, _, _, _, _, _, _, _, rfl, rfl, rfl, rfl, rfl, rfl, rfl, rfl, rfl, rfl⟩
  obtain ⟨i, begun, opened, resume, j, entered, last, k, returning, exec, after, hfetch, haddress,
    hopcode, hname, hopened, hentered, hgoes, hreturning, hleaves, hresume⟩ := hrun
  generalize hrest : [(⟨i, 1, resume⟩ : Suspension)] = rest
  have hbase : (⟨opened, rest⟩ : MachineState).base = 1 := hrest ▸ rfl
  have hwithin : callAndHalt.StepsWithin rest ⟨opened, rest⟩ ⟨last, rest⟩ :=
    stepsWithin_of_goesOn (hbase ▸ hentered) hgoes
  have hreturn : callAndHalt.Leaves ⟨last, rest⟩ rest (.returned (.int 2)) exec :=
    ⟨k, _, .started (hbase ▸ hreturning), hleaves⟩
  have hends : callAndHalt.Ends i [] (.ok .continue) after
      (Reference.callWith 0 callAndHalt.toSetup i.toSite begun) := by
    rw [hopened]
    refine .resumed hrest.symm (.single hwithin) hreturn ?_
    rw [Exit.reply, hresume]
    exact .finished
  have hjumps : ¬Reference.Jumps callAndHalt.toSetup i.toSite begun i.name := by
    intro hjumps
    simpa [hname] using hjumps.mem_names
  obtain ⟨next, listed, position, hnext, hdecode, hagree⟩ :=
    next_fetch_is_listed Reference.bind_map_registry rfl (fresh_start _ _ _)
      (layered_start _ _ _) ⟨0, rfl⟩ hfetch hends hjumps
  obtain ⟨hlisted, hip⟩ := hagree.mpr fun hcopy => by simp [hname] at hcopy
  rw [haddress, hopcode] at hdecode
  obtain ⟨_, hdecode'⟩ : ∃ listed, callAndHalt.disassembler.decodeAt 0 38 = some (listed, 3) :=
    ⟨_, rfl⟩
  obtain ⟨rfl, rfl⟩ := Prod.mk.inj (Option.some.inj (hdecode'.symm.trans hdecode))
  exact ⟨i, _, begun, after, next, _, hfetch, hends, hnext, hdecode, hlisted, hip⟩

/-- A copy of the first variable whose reference is spelled by the marker of a float. -/
def copyByFloatMarker : Machine :=
  Reference.machine #[29, 3, 32, 27, 46, 64, 37, 64]

/-- The run goes on at address 6, in the middle of what the scan takes for a float. -/
theorem next_fetch_is_not_listed_copyByFloatMarker :
    copyByFloatMarker.decoder.markers.validate = .ok () ∧
    ∃ state i begun after next listed, copyByFloatMarker.Reaches copyByFloatMarker.start state ∧
      copyByFloatMarker.fetch state.base state.exec = (.ok (i, Reference.loadVar), begun) ∧
      copyByFloatMarker.Ends i state.suspended (.ok .continue) after
        (Reference.loadVar copyByFloatMarker.toSetup i.toSite begun) ∧
      ¬Reference.Jumps copyByFloatMarker.toSetup i.toSite begun i.name ∧
      copyByFloatMarker.NextFetch state next ∧ next.exec.context.ip = 6 ∧
      copyByFloatMarker.disassembler.decodeAt i.address i.opcode = some (listed, 8) ∧
      listed.failed = false := by
  have hrun : ∃ state i begun after next listed,
      copyByFloatMarker.iterate 1 ⟨copyByFloatMarker.start.exec, []⟩ = .running state ∧
      copyByFloatMarker.fetch state.base state.exec = (.ok (i, Reference.loadVar), begun) ∧
      i.name = "LOAD_VAR" ∧
      Reference.loadVar copyByFloatMarker.toSetup i.toSite begun =
        .finished (.ok .continue) after ∧
      copyByFloatMarker.step state = .running next ∧ next.suspended = state.suspended ∧
      next.exec.context.ip = 6 ∧
      copyByFloatMarker.disassembler.decodeAt i.address i.opcode = some (listed, 8) ∧
      listed.failed = false :=
    ⟨_, _, _, _, _, _, rfl, rfl, rfl, rfl, rfl, rfl, rfl, rfl, rfl⟩
  obtain ⟨state, i, begun, after, next, listed, hstate, hfetch, hname, hfinished, hstep,
    hsuspended, hip, hdecode, hlisted⟩ := hrun
  refine ⟨rfl, state, i, begun, after, next, listed, ⟨1, hstate⟩, hfetch, ?_, fun hjumps => ?_,
    ⟨state, .refl, hstep, hsuspended⟩, hip, hdecode, hlisted⟩
  · rw [hfinished]
    exact .finished
  · simpa [hname] using hjumps.mem_names

end Machine

end TaggedBytecode
