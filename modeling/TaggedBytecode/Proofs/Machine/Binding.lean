import Mathlib
import TaggedBytecode.Proofs.Disassembly.Tiling
import TaggedBytecode.Proofs.Machine.Output
import TaggedBytecode.Proofs.Opcode.Map

/-!
# Dispatch Tables and Opcode Maps

A dispatch table is a dense copy of an opcode map. It has a handler where the map has metadata of
a registered name, and nothing everywhere else: at negative values, in gaps of the map, for names
without a handler and past its end. So a machine that runs by the table and a scan that goes by the
map know the same opcodes, up to names without handlers, and call them by the same names.

## Main definitions

* `HandlerRegistry.named?` — what a registry has for some metadata.
* `HandlerTable.at?` — what a table has under a number.
* `Machine.Finds` — an instruction that the table has under its opcode.

## Main results

* `HandlerTable.at?_fill`, `HandlerTable.get?_fill` — a filled table agrees with the map.
* `HandlerTable.exists_bind_eq_error_iff` — when there is nothing to bind.
* `Machine.fetch_eq_unknownOpcode_iff` — when a fetch finds no handler.
* `Machine.finds_of_mem_completing`, `Machine.finds_of_mem_completions` — the instructions that
  complete in a step and in a run.
* `HandlerTable.binding_agrees_with_map` — what a bound table, its machine and a scan agree on.
-/

namespace TaggedBytecode

namespace HandlerRegistry

/-- The handler that a registry has for the name in some metadata, under that name. -/
def named? (registry : HandlerRegistry) (info : OpcodeMeta) : Option NamedHandler :=
  (registry.get? info.name).map fun handler => ⟨info.name, handler⟩

theorem named?_eq_some_iff {registry : HandlerRegistry} {info : OpcodeMeta} {name : String}
    {handler : Handler} : registry.named? info = some ⟨name, handler⟩ ↔
      info.name = name ∧ registry.get? name = some handler := by
  rw [named?, Option.map_eq_some_iff]
  constructor
  · rintro ⟨_, hget, heq⟩
    obtain ⟨rfl, rfl⟩ := NamedHandler.mk.inj heq
    exact ⟨rfl, hget⟩
  · rintro ⟨rfl, hget⟩
    exact ⟨handler, hget, rfl⟩

end HandlerRegistry

/-! ### Tables -/

namespace HandlerTable

variable {table : HandlerTable} {map : OpcodeMap} {registry : HandlerRegistry}

/-- What a table has under a number. -/
def at? (table : HandlerTable) (id : ℕ) : Option NamedHandler :=
  table.places[id]?.join

theorem at?_ofSize (size id : ℕ) : (ofSize size).at? id = none := by
  rw [at?, ofSize, Array.getElem?_replicate]
  split <;> rfl

/-- Filling a place changes no other, also where the table has to grow. -/
theorem at?_set (table : HandlerTable) (id : ℕ) (entry : NamedHandler) (other : ℕ) :
    (table.set id entry).at? other = if other = id then some entry else table.at? other := by
  rw [at?, at?, set, Array.getElem?_setIfInBounds, Array.getElem?_append,
    Array.getElem?_replicate, Array.size_append, Array.size_replicate, size]
  by_cases heq : other = id
  · subst heq
    rw [if_pos rfl, if_pos (by omega), if_pos rfl]
    rfl
  · rw [if_neg (Ne.symm heq), if_neg heq]
    split
    · rfl
    · rename_i hend
      rw [Array.getElem?_eq_none (not_lt.mp hend)]
      split <;> rfl

/-- Fills the place of an entry of a map, if its name has a handler. -/
def fillEntry (registry : HandlerRegistry) (table : HandlerTable) (e : ℕ × OpcodeMeta) :
    HandlerTable :=
  match registry.get? e.2.name with
  | some handler => table.set e.1 ⟨e.2.name, handler⟩
  | none => table

theorem at?_fillEntry (registry : HandlerRegistry) (table : HandlerTable) (e : ℕ × OpcodeMeta)
    (id : ℕ) : (fillEntry registry table e).at? id =
      if id = e.1 then (registry.named? e.2).or (table.at? id) else table.at? id := by
  rw [fillEntry, HandlerRegistry.named?]
  cases registry.get? e.2.name with
  | none => simp
  | some handler => exact at?_set table e.1 _ id

/-- Entries under different numbers fill the places of those that have handlers. Induction on the
entries. -/
theorem at?_foldl_fillEntry {entries : List (ℕ × OpcodeMeta)}
    (hnodup : (entries.map (·.1)).Nodup) (registry : HandlerRegistry) (table : HandlerTable)
    (id : ℕ) : (entries.foldl (fillEntry registry) table).at? id =
      ((Assoc.get? id entries).bind registry.named?).or (table.at? id) := by
  induction entries generalizing table with
  | nil => rfl
  | cons first rest ih =>
      obtain ⟨hfirst, hrest⟩ := List.nodup_cons.mp hnodup
      rw [List.foldl_cons, ih hrest, at?_fillEntry, Assoc.get?]
      split
      · rename_i heq
        rw [heq, Assoc.get?_eq_none_iff.mpr hfirst]
        rfl
      · rfl

/-- **A filled table has the handlers of the map's names.** -/
theorem at?_fill (hmap : map.WellFormed) (registry : HandlerRegistry) (id : ℕ) :
    (fill map registry).at? id = (map.find? id).bind registry.named? := by
  have hfold := at?_foldl_fillEntry hmap.ordered.nodup registry (ofSize map.tableSize) id
  rwa [at?_ofSize, Option.or_none] at hfold

/-- **A filled table agrees with its map** about every raw value. -/
theorem get?_fill (hmap : map.WellFormed) (registry : HandlerRegistry) (raw : Int32) :
    (fill map registry).get? raw = (map.get? raw).bind registry.named? := by
  rw [get?, OpcodeMap.get?]
  split
  · rfl
  · exact at?_fill hmap registry raw.toNatClampNeg

theorem get?_fill_eq_some_iff (hmap : map.WellFormed) {raw : Int32} {name : String}
    {handler : Handler} : (fill map registry).get? raw = some ⟨name, handler⟩ ↔
      ∃ info, map.get? raw = some info ∧ info.name = name ∧ registry.get? name = some handler := by
  simp only [get?_fill hmap, Option.bind_eq_some_iff, HandlerRegistry.named?_eq_some_iff]

theorem get?_fill_eq_none_iff (hmap : map.WellFormed) {raw : Int32} :
    (fill map registry).get? raw = none ↔
      map.get? raw = none ∨ ∃ info, map.get? raw = some info ∧ registry.get? info.name = none := by
  rw [get?_fill hmap]
  cases map.get? raw <;> simp [HandlerRegistry.named?]

/-- A table with no filled place has nothing under any number. -/
theorem assigned_eq_zero_iff : table.assigned = 0 ↔ ∀ id, table.at? id = none := by
  rw [assigned, Array.countP_eq_zero]
  constructor
  · intro h id
    cases hplace : table.places[id]? with
    | none => rw [at?, hplace]; rfl
    | some place =>
        rw [at?, hplace]
        exact Option.not_isSome_iff_eq_none.mp (h place (Array.mem_of_getElem? hplace))
  · intro h place hmem
    obtain ⟨id, hplace⟩ := Array.getElem?_of_mem hmem
    have hnone := h id
    rw [at?, hplace] at hnone
    exact Option.not_isSome_iff_eq_none.mpr hnone

/-- **There is nothing to bind** if no name of the map is registered. -/
theorem exists_bind_eq_error_iff (hmap : map.WellFormed) :
    (∃ fault, bind map registry = .error fault) ↔
      ∀ e ∈ map.entries, registry.get? e.2.name = none := by
  have hfails : (∃ fault, bind map registry = .error fault) ↔ (fill map registry).assigned = 0 := by
    rw [bind]
    split
    · exact iff_of_true ⟨_, rfl⟩ ‹_›
    · exact iff_of_false (by rintro ⟨fault, ⟨⟩⟩) ‹_›
  rw [hfails, assigned_eq_zero_iff]
  simp only [at?_fill hmap]
  constructor
  · rintro h ⟨id, info⟩ he
    have hnone := h id
    rw [hmap.mem_entries_iff.mp he] at hnone
    exact Option.map_eq_none_iff.mp hnone
  · intro h id
    cases hfind : map.find? id with
    | none => rfl
    | some info =>
        exact Option.map_eq_none_iff.mpr (h (id, info) (hmap.mem_entries_iff.mpr hfind))

theorem eq_fill_of_bind (h : bind map registry = .ok table) : table = fill map registry := by
  rw [bind] at h
  split at h
  · cases h
  · exact (Except.ok.inj h).symm

end HandlerTable

/-! ### Machines -/

namespace Machine

variable {m : Machine} {state : MachineState} {stack : List Suspension} {c : Completion}

/-- **When a fetch finds no handler**: the address lies in the program, the budget is not spent,
and the table has nothing for the opcode there. -/
theorem fetch_eq_unknownOpcode_iff (m : Machine) (base : ℕ) (exec : Execution) (address : ℕ)
    (raw : Int32) :
    (m.fetch base exec).1 = .error (.unknownOpcode address raw) ↔
      address = exec.context.ip ∧ m.program[address]? = some raw ∧
      (∀ limit, m.maxSteps = some limit → exec.steps < limit) ∧ m.table.get? raw = none := by
  rw [fetch]
  dsimp only
  split
  · rename_i hbounds
    refine iff_of_false (fun h => by cases h) ?_
    rintro ⟨rfl, hraw, -⟩
    rw [hbounds] at hraw
    cases hraw
  · rename_i opcode hopcode
    split
    · rename_i hspent
      refine iff_of_false (fun h => by cases h) ?_
      rintro ⟨-, -, hbudget, -⟩
      obtain ⟨limit, hlimit, hle⟩ := (Option.any_eq_true _ _).mp hspent
      exact absurd (of_decide_eq_true hle) (Nat.not_le.mpr (hbudget limit hlimit))
    · rename_i hleft
      have hbudget (limit : ℕ) (hlimit : m.maxSteps = some limit) : exec.steps < limit := by
        simpa [hlimit] using hleft
      split
      · rename_i hnone
        simp only [Except.error.injEq, Fault.unknownOpcode.injEq]
        constructor
        · rintro ⟨rfl, rfl⟩
          exact ⟨rfl, hopcode, hbudget, hnone⟩
        · rintro ⟨rfl, hraw, -, -⟩
          exact ⟨rfl, Option.some.inj (hopcode.symm.trans hraw)⟩
      · rename_i entry hentry
        refine iff_of_false (fun h => by cases h) ?_
        rintro ⟨rfl, hraw, -, hnone⟩
        rw [← Option.some.inj (hopcode.symm.trans hraw), hentry] at hnone
        cases hnone

/-- The table of a machine **finds** an instruction: the opcode is the slot at its address, and
the table has it under the name of the instruction. -/
def Finds (m : Machine) (i : Instruction) : Prop :=
  m.program[i.address]? = some i.opcode ∧
    ∃ handler, m.table.get? i.opcode = some ⟨i.name, handler⟩

theorem finds_of_fetch {base : ℕ} {exec begun : Execution} {i : Instruction} {handler : Handler}
    (h : m.fetch base exec = (.ok (i, handler), begun)) : m.Finds i := by
  obtain ⟨-, hopcode, hentry⟩ := entry_of_fetch h
  exact ⟨hopcode, handler, hentry⟩

theorem eq_of_mem_completed {i : Instruction} {p : Progress Flow} (h : c ∈ completed i p) :
    c.instruction = i := by
  cases p with
  | finished reply exec =>
      obtain rfl := List.mem_singleton.mp h
      rfl
  | _ => cases h

theorem instruction_of_waits {i : Instruction} {p : Progress Flow} {s : Suspension}
    {exec : Execution} (h : turn i p = .waits s exec) : s.instruction = i := by
  cases p with
  | suspended base after resume =>
      obtain ⟨rfl, -⟩ := Turn.waits.inj h
      rfl
  | finished reply after =>
      rw [turn] at h
      split at h <;> cases h
  | aborted message => cases h

/-- What completes while a turn is carried was suspended. Induction on the suspended
instructions. -/
theorem exists_suspended_of_mem_carried {t : Turn} (h : c ∈ carried t stack) :
    ∃ s ∈ stack, c.instruction = s.instruction := by
  induction stack generalizing t with
  | nil => cases t <;> cases h
  | cons s stack ih =>
      cases t with
      | leaves exit exec =>
          rcases List.mem_append.mp h with hcompleted | hcarried
          · exact ⟨s, List.mem_cons_self, eq_of_mem_completed hcompleted⟩
          · obtain ⟨s', hs', heq⟩ := ih hcarried
            exact ⟨s', List.mem_cons_of_mem _ hs', heq⟩
      | _ => cases h

/-- **The instructions that complete in a step** are found, if those that wait are. -/
theorem finds_of_mem_completing (hstate : ∀ s ∈ state.suspended, m.Finds s.instruction)
    (h : c ∈ m.completing state) : m.Finds c.instruction := by
  have hcarried {t : Turn} (h : c ∈ carried t state.suspended) : m.Finds c.instruction := by
    obtain ⟨s, hs, heq⟩ := exists_suspended_of_mem_carried h
    exact heq ▸ hstate s hs
  rw [completing] at h
  split at h
  · exact hcarried h
  · rename_i i handler begun hfetch
    rcases List.mem_append.mp h with hcompleted | h
    · exact eq_of_mem_completed hcompleted ▸ finds_of_fetch hfetch
    · exact hcarried h

/-- The instructions that wait after a step are found, if those before it are. -/
theorem finds_suspended_of_step (hstate : ∀ s ∈ state.suspended, m.Finds s.instruction)
    {next : MachineState} (h : m.step state = .running next) :
    ∀ s ∈ next.suspended, m.Finds s.instruction := by
  have hresume (s : Suspension) (hs : m.Finds s.instruction) (reply : Except Thrown Val)
      (exec : Execution) (waiting : Suspension) (after : Execution)
      (hturn : turn s.instruction (s.resume reply exec) = .waits waiting after) :
      m.Finds waiting.instruction :=
    instruction_of_waits hturn ▸ hs
  rw [step] at h
  split at h
  · exact forall_suspended_of_carry (P := fun s => m.Finds s.instruction) hresume
      (fun _ _ hwaits => by cases hwaits) hstate h
  · rename_i i handler begun hfetch
    refine forall_suspended_of_carry (P := fun s => m.Finds s.instruction) hresume ?_ hstate h
    exact fun waiting after hturn => instruction_of_waits hturn ▸ finds_of_fetch hfetch

/-- **The instructions that complete in a run** are found. Induction on the number of steps. -/
theorem finds_of_mem_completions (hstate : ∀ s ∈ state.suspended, m.Finds s.instruction) {n : ℕ}
    (h : c ∈ m.completions n state) : m.Finds c.instruction := by
  induction n generalizing state with
  | zero => cases h
  | succ n ih =>
      rw [completions] at h
      rcases List.mem_append.mp h with hcompleting | hlater
      · exact finds_of_mem_completing hstate hcompleting
      · cases hstep : m.step state with
        | running next =>
            rw [hstep] at hlater
            exact ih (finds_suspended_of_step hstate hstep) hlater
        | _ =>
            rw [hstep] at hlater
            cases hlater

end Machine

/-! ### Maps, machines and scans -/

/-- **A bound table agrees with its map.** Binding fails just if no name of the map is registered.
Otherwise:
* the table has a handler and a name for a raw value just if the map has metadata of this name for
  it and the registry has this handler for the name, and nothing for all other values;
* a machine with the table fails to find a handler for the opcode that it fetches just if the map
  does not have the opcode or its name has no handler;
* the instructions that complete in a run have the names that the map has for their opcodes, and
  so have those that a scan by the map lists at the same addresses. -/
theorem HandlerTable.binding_agrees_with_map {map : OpcodeMap} (hmap : map.WellFormed)
    (registry : HandlerRegistry) :
    ((∃ fault, HandlerTable.bind map registry = .error fault) ↔
      ∀ e ∈ map.entries, registry.get? e.2.name = none) ∧
    ∀ table, HandlerTable.bind map registry = .ok table →
      (∀ raw name handler, table.get? raw = some ⟨name, handler⟩ ↔
        ∃ info, map.get? raw = some info ∧ info.name = name ∧
          registry.get? name = some handler) ∧
      (∀ raw, table.get? raw = none ↔ map.get? raw = none ∨
        ∃ info, map.get? raw = some info ∧ registry.get? info.name = none) ∧
      ∀ m : Machine, m.table = table →
        (∀ base exec address raw,
          (m.fetch base exec).1 = .error (.unknownOpcode address raw) ↔
            address = exec.context.ip ∧ m.program[address]? = some raw ∧
            (∀ limit, m.maxSteps = some limit → exec.steps < limit) ∧
            (map.get? raw = none ∨
              ∃ info, map.get? raw = some info ∧ registry.get? info.name = none)) ∧
        ∀ exec n, ∀ c ∈ m.completions n { exec },
          m.program[c.event.address]? = some c.event.opcode ∧
          (∃ info, map.get? c.event.opcode = some info ∧ info.name = c.event.name) ∧
          ∀ d : Disassembler, d.program = m.program → d.opcodes = map →
            ∀ listed ∈ d.disassemble.instructions,
              (listed.address = c.event.address → listed.opcode = c.event.opcode) ∧
              (listed.opcode = c.event.opcode → listed.name = c.event.name) := by
  refine ⟨exists_bind_eq_error_iff hmap, fun table htable => ?_⟩
  obtain rfl := eq_fill_of_bind htable
  refine ⟨fun raw name handler => get?_fill_eq_some_iff hmap, fun raw => get?_fill_eq_none_iff hmap,
    fun m htable => ⟨fun base exec address raw => ?_, fun exec n c hc => ?_⟩⟩
  · rw [m.fetch_eq_unknownOpcode_iff, htable, get?_fill_eq_none_iff hmap]
  · obtain ⟨hopcode, handler, hentry⟩ := Machine.finds_of_mem_completions (List.forall_mem_nil _) hc
    rw [htable, get?_fill_eq_some_iff hmap] at hentry
    obtain ⟨info, hinfo, hname, -⟩ := hentry
    refine ⟨hopcode, ⟨info, hinfo, hname⟩, fun d hprogram hopcodes listed hlisted => ?_⟩
    obtain ⟨stop, hlists⟩ := d.exists_lists_of_mem_disassemble hlisted
    obtain ⟨info', hinfo', hname', -⟩ := hlists.operands
    refine ⟨fun haddress => ?_, fun hsame => ?_⟩
    · have hslot := hlists.opcode
      rw [hprogram, haddress] at hslot
      exact Option.some.inj (hslot.symm.trans hopcode)
    · rw [hopcodes, hsame] at hinfo'
      rw [hname', ← Option.some.inj (hinfo.symm.trans hinfo'), hname]
      rfl

/-- Two reference opcodes under other numbers, and a name that has no handler. -/
def renumbered : OpcodeMap where
  entries :=
    [(7, { name := "STRICT_EQUAL", operands := .binary, writes := true }),
      (9, { name := "UNHEARD_OF" }), (100, { name := "HALT" })]

/-- A machine that knows the reference handlers by these numbers. -/
def renumberedMachine : Machine where
  program := #[7, 22, 22, 32, 100, 9]
  table := HandlerTable.fill renumbered Reference.registry

theorem HandlerTable.binding_agrees_with_map_renumbered :
    renumbered.WellFormed ∧
    HandlerTable.bind renumbered Reference.registry = .ok renumberedMachine.table ∧
    (∃ handler, renumberedMachine.table.get? 100 = some ⟨"HALT", handler⟩) ∧
    (∀ raw ∈ [9, -1, 8, 101], renumberedMachine.table.get? raw = none) ∧
    (renumberedMachine.fetch 0 { context := (Context.start 6).setIp 5 }).1 =
      .error (.unknownOpcode 5 9) ∧
    (renumberedMachine.completions 2 { exec := renumberedMachine.start.exec }).map (·.event.name) =
      ["STRICT_EQUAL", "HALT"] ∧
    ∀ c ∈ renumberedMachine.completions 2 { exec := renumberedMachine.start.exec },
      ∃ info, renumbered.get? c.event.opcode = some info ∧ info.name = c.event.name := by
  have hmap : renumbered.WellFormed := ⟨by decide, by decide⟩
  have hunheard : Reference.registry.get? "UNHEARD_OF" = none := by
    cbv
  obtain ⟨handler, hhalt⟩ : ∃ handler, Reference.registry.get? "HALT" = some handler :=
    ⟨Reference.halt, by cbv⟩
  obtain ⟨hfails, hbound⟩ := HandlerTable.binding_agrees_with_map hmap Reference.registry
  have hbind : HandlerTable.bind renumbered Reference.registry = .ok renumberedMachine.table := by
    cases h : HandlerTable.bind renumbered Reference.registry with
    | error fault =>
        have hnone := hfails.mp ⟨fault, h⟩ (100, { name := "HALT" }) (.tail _ (.tail _ (.head _)))
        cases hhalt.symm.trans hnone
    | ok table => rw [eq_fill_of_bind h, renumberedMachine]
  obtain ⟨hsome, hnone, hmachine⟩ := hbound _ hbind
  obtain ⟨hfetch, hruns⟩ := hmachine renumberedMachine rfl
  have hunlimited (limit : ℕ) (h : renumberedMachine.maxSteps = some limit) : 0 < limit := by
    cases h
  refine ⟨hmap, hbind, ⟨handler, (hsome 100 _ _).mpr ⟨_, rfl, rfl, hhalt⟩⟩, fun raw hraw => ?_,
    (hfetch 0 _ 5 9).mpr ⟨rfl, rfl, hunlimited, .inr ⟨_, rfl, hunheard⟩⟩, by cbv,
    fun c hc => (hruns _ 2 c hc).2.1⟩
  simp only [List.mem_cons, List.not_mem_nil, or_false] at hraw
  rcases hraw with rfl | rfl | rfl | rfl
  · exact (hnone 9).mpr (.inr ⟨_, rfl, hunheard⟩)
  · exact (hnone (-1)).mpr (.inl rfl)
  · exact (hnone 8).mpr (.inl rfl)
  · exact (hnone 101).mpr (.inl rfl)

end TaggedBytecode
