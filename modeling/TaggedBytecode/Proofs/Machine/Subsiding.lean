import TaggedBytecode.Proofs.Context.Histories
import TaggedBytecode.Proofs.Machine.Effects
import TaggedBytecode.Proofs.Machine.Unwinding

/-!
# Frames that Subside

A scope is armed when it is entered, and nothing arms a frame that is there. So a step lets the
frames **subside**: a frame that stays in its place catches no more than before, unless an
exception is delivered to it.

Frames can be released and entered in one step, and a step can leave many calls. What it does is
followed from the instruction that it starts through all those that it resumes. Only the first
can enter a scope or a call, and then it is the last; every other one has only frames that the
step began with.

## Main definitions

* `Frame.CatchesNoMore`, `Context.Retains`, `Context.Subsides` — frames that catch no more.
* `Suspension.Writes` — suspended instructions that write what their callees return.
* `Turn.Subsides` — what a turn leaves of the frames.
* `Machine.Arises` — how an active instruction came about.

## Main results

* `Context.Act.subsides` — no act arms a frame that was there.
* `Machine.Active.arises` — how the active instructions of a step come about.
* `Machine.step_subsides` — a step lets the frames subside, or it delivers an exception.
-/

namespace TaggedBytecode

/-! ### Frames that catch no more -/

/-- A frame that catches no more than another: it is armed as the other is, or not at all, and
it holds the exception that the other holds, or none. -/
structure Frame.CatchesNoMore (f g : Frame) : Prop where
  handler : g.handler = f.handler ∨ g.handler = none
  pending : g.pending = f.pending ∨ g.pending = none

namespace Frame.CatchesNoMore

theorem refl (f : Frame) : f.CatchesNoMore f :=
  ⟨.inl rfl, .inl rfl⟩

theorem trans {f g h : Frame} (hfg : f.CatchesNoMore g) (hgh : g.CatchesNoMore h) :
    f.CatchesNoMore h where
  handler := by
    rcases hgh.handler with hsame | hnone
    · exact hsame ▸ hfg.handler
    · exact .inr hnone
  pending := by
    rcases hgh.pending with hsame | hnone
    · exact hsame ▸ hfg.pending
    · exact .inr hnone

/-- What catches no more than a disarmed frame is disarmed. -/
theorem handler_eq_none {f g : Frame} (h : f.CatchesNoMore g) (hf : f.handler = none) :
    g.handler = none := by
  rcases h.handler with hsame | hnone
  · exact hsame.trans hf
  · exact hnone

end Frame.CatchesNoMore

namespace Context

/-- Every frame was there before, and catches no more than it did. -/
def Retains (a b : Context) : Prop :=
  ∀ i g, b.frame? i = some g → ∃ f, a.frame? i = some f ∧ f.CatchesNoMore g

/-- The frames that are still in their places catch no more than they did. -/
def Subsides (a b : Context) : Prop :=
  ∀ i f g, a.frame? i = some f → b.frame? i = some g → f.CatchesNoMore g

variable {a b c : Context}

theorem Retains.refl (a : Context) : a.Retains a :=
  fun _ g hg => ⟨g, hg, .refl g⟩

theorem Retains.trans (hab : a.Retains b) (hbc : b.Retains c) : a.Retains c := by
  intro i h hh
  obtain ⟨g, hg, hgh⟩ := hbc i h hh
  obtain ⟨f, hf, hfg⟩ := hab i g hg
  exact ⟨f, hf, hfg.trans hgh⟩

theorem Retains.subsides (h : a.Retains b) : a.Subsides b := by
  intro i f g hf hg
  obtain ⟨f', hf', hfg⟩ := h i g hg
  obtain rfl : f = f' := Option.some.inj (hf.symm.trans hf')
  exact hfg

/-- Only the current frame changes, and it catches no more. -/
theorem retains_withCurrent {f : Frame} (h : a.current.CatchesNoMore f) :
    a.Retains { a with current := f } := by
  intro i g hg
  rw [frame?_withCurrent] at hg
  split at hg
  · rename_i hi
    obtain rfl := Option.some.inj hg
    exact ⟨a.current, hi ▸ a.frame?_currentIndex, h⟩
  · exact ⟨g, hg, .refl g⟩

theorem retains_setIp (a : Context) (ip : Nat) : a.Retains (a.setIp ip) :=
  retains_withCurrent ⟨.inl rfl, .inl rfl⟩

theorem retains_store (a : Context) (slot : Nat) (value : Val) : a.Retains (a.store slot value) :=
  retains_withCurrent ⟨.inl rfl, .inl rfl⟩

theorem Advances.retains (h : a.Advances b) : a.Retains b := by
  obtain ⟨ip, -, rfl⟩ := h
  exact retains_setIp a ip

theorem retains_assign (a : Context) (slot : Nat) (value : Val) :
    a.Retains (a.assign slot value) := by
  rw [assign]
  split
  · intro i g hg
    rw [frame?_modifyFrame] at hg
    split at hg
    · obtain ⟨f, hf, rfl⟩ := Option.map_eq_some_iff.mp hg
      exact ⟨f, hf, .inl rfl, .inl rfl⟩
    · exact ⟨g, hg, .refl g⟩
  · exact retains_store a slot value

theorem retains_pop {released : Frame} (h : a.pop = some (released, b)) : a.Retains b := by
  obtain ⟨-, -, hkept, below, hbelow, ip, hcurrent⟩ := pop_eq_some h
  intro i g hg
  by_cases htop : i = b.currentIndex
  · rw [htop, frame?_currentIndex, Option.some.injEq] at hg
    obtain rfl := hg
    rw [hcurrent]
    exact ⟨below, htop ▸ hbelow, .inl rfl, .inl rfl⟩
  · have hi : i < b.currentIndex + 1 := lt_depth_of_frame? hg
    exact ⟨g, hkept i (by omega) ▸ hg, .refl g⟩

theorem retains_truncate (a : Context) (depth : Nat) : a.Retains (a.truncate depth).2 := by
  intro i g hg
  rw [frame?_truncate] at hg
  split at hg
  · exact ⟨g, hg, .refl g⟩
  · cases hg

/-- A frame that is put above the others changes none of them. -/
theorem subsides_push (a : Context) (f : Frame) : a.Subsides (a.push f) := by
  intro i g h hg hh
  have hne : i ≠ a.depth := Nat.ne_of_lt (lt_depth_of_frame? hg)
  rw [frame?_push, if_neg hne] at hh
  obtain rfl : g = h := Option.some.inj (hg.symm.trans hh)
  exact .refl g

/-- An advance of the instruction pointer keeps every frame in its place. -/
theorem Advances.subsides_trans (hab : a.Advances b) (hbc : b.Subsides c) : a.Subsides c := by
  obtain ⟨ip, -, rfl⟩ := hab
  intro i f h hf hh
  have hg := (a.frame?_setIp ip i).trans (congrArg _ hf)
  have hfg : f.CatchesNoMore (if i = a.currentIndex then { f with ip } else f) := by
    split
    · exact ⟨.inl rfl, .inl rfl⟩
    · exact .refl f
  exact hfg.trans (hbc i _ h hg hh)

/-- **No act arms a frame** that was there. -/
theorem Act.subsides (h : a.Act b) : a.Subsides b := by
  cases h with
  | rest => exact (Retains.refl a).subsides
  | store slot value => exact (retains_store a slot value).subsides
  | assign slot value => exact (retains_assign a slot value).subsides
  | jump target => exact (retains_setIp a target).subsides
  | @enter _ handler hpush =>
      simp only [pushScope] at hpush
      split at hpush
      · obtain ⟨-, rfl⟩ := lt_of_checkTarget hpush
        exact subsides_push a _
      · obtain rfl := Except.ok.inj hpush
        exact subsides_push a _
  | leave hpop => exact (retains_pop hpop).subsides
  | take ip slot value =>
      have hdisarmed : a.current.CatchesNoMore a.clearHandler.current := ⟨.inr rfl, .inl rfl⟩
      have hcleared : a.Retains a.clearHandler := retains_withCurrent hdisarmed
      exact ((hcleared.trans (retains_setIp _ ip)).trans (retains_store _ slot value)).subsides
  | forget =>
      have hforgotten : a.current.CatchesNoMore a.clearPending.current := ⟨.inl rfl, .inr rfl⟩
      exact Retains.subsides (retains_withCurrent hforgotten)

end Context

/-! ### Suspended instructions -/

/-- A suspended instruction that writes what its callee returns, and passes on what it throws. -/
def Suspension.Writes (setup : Setup) (s : Suspension) : Prop :=
  s.resume = Progress.afterCall fun value exec =>
    HandlerM.writing value setup s.instruction.toSite exec

/-! ### Turns -/

/-- What a turn leaves of the frames of a context: the call goes on or waits with frames that have
subsided, or with an exception delivered among them, or it is left with frames that were there. -/
inductive Turn.Subsides (setup : Setup) (context : Context) : Turn → Prop
  | goesOn {after : Execution} : context.Subsides after.context →
      Subsides setup context (.goesOn after)
  | delivers {thrown : Context} {index : Nat} {v : Val} {after : Execution} :
      context.Retains thrown → Context.Caught thrown index v after.context →
      Subsides setup context (.goesOn after)
  | waits {s : Suspension} {exec : Execution} : s.Writes setup → context.Subsides exec.context →
      Subsides setup context (.waits s exec)
  | leaves {exit : Exit} {exec : Execution} : context.Retains exec.context →
      Subsides setup context (.leaves exit exec)
  | ends {exit : Exit} {exec : Execution} : exit.Final → Subsides setup context (.leaves exit exec)
  | aborts {message : String} : Subsides setup context (.aborts message)

namespace Machine

variable {m : Machine} {run : Run} {state next : MachineState} {i : Instruction}
  {p : Progress Flow} {exec : Execution} {stack : List Suspension} {setup : Setup}
  {context : Context} {k : Nat} {v : Val}

theorem retains_release (base : Nat) (exec : Execution) :
    exec.context.Retains (release base exec).context := by
  rw [release]
  split
  · exact Context.retains_truncate _ _
  · exact .refl _

/-- An exception is delivered to a frame of the call, or it leaves the call. What else is thrown
leaves the call, and no caller can stop it. -/
theorem turn_of_error {thrown : Thrown}
    (h : ∀ v, thrown = .exception v → context.Retains exec.context) :
    (turn i (.finished (.error thrown) exec)).Subsides setup context := by
  cases thrown with
  | exception v =>
      cases hcatcher : exec.context.catcher i.base with
      | some index =>
          obtain ⟨after, hturn, -, hcaught⟩ := turn_of_catcher hcatcher v
          rw [hturn]
          exact .delivers (h v rfl) hcaught
      | none =>
          rw [turn_of_no_catcher hcatcher]
          exact .leaves ((h v rfl).trans (retains_release i.base _))
  | halt => exact .ends trivial
  | fault fault => exact .ends trivial

/-- Writing goes on with the frames that there are, or it fails for good. -/
theorem turn_of_writing (value : Val) (h : context.Retains exec.context) :
    (turn i (HandlerM.writing value setup i.toSite exec)).Subsides setup context := by
  cases hslot : Decoder.slot setup.program exec.context.ip with
  | error fault =>
      rw [HandlerM.writing_of_fault hslot]
      exact turn_of_error nofun
  | ok read =>
      obtain ⟨slot, q⟩ := read
      rw [HandlerM.writing_of_slot hslot]
      have hread := h.trans (exec.context.retains_setIp q)
      have hstored := hread.trans (Context.retains_store _ slot value)
      exact .goesOn hstored.subsides

/-- An instruction that looks and then acts lets the frames subside. -/
theorem turn_of_acted (h : p.Acted setup i.toSite exec) :
    (turn i p).Subsides setup exec.context := by
  cases h with
  | acts hlooked hact => exact .goesOn (hlooked.subsides_trans hact.subsides)
  | @ends flow after hflow hlooked =>
      match flow, hflow with
      | .continue, hflow => exact absurd rfl hflow
      | .halt, _ => exact .ends trivial
      | .return value, _ => exact .leaves (hlooked.retains.trans (retains_release i.base _))
  | throws hlooked => exact turn_of_error fun _ _ => hlooked.retains
  | fails hthrown => exact turn_of_error fun v hv => absurd hv (hthrown v)
  | @calls mid entry args opened hlooked hopen =>
      obtain ⟨f, -, -, hpush⟩ := Context.entered_eq_push hopen args
      have hentered : mid.context.Subsides (opened.storeAll 0 args) :=
        hpush ▸ Context.subsides_push mid.context f
      exact .waits rfl (hlooked.subsides_trans hentered)
  | aborts => exact .aborts

/-! ### Steps -/

/-- The suspended instructions of a state write what their callees return. -/
def AllWrite (m : Machine) (state : MachineState) : Prop :=
  ∀ s ∈ state.suspended, s.Writes m.toSetup

/-- How an active instruction came about: it was started, or it got the value of its callee, or it
passes on what its callee threw. The last two find frames that the step began with. -/
inductive Arises (m : Machine) (state : MachineState) (i : Instruction) : Progress Flow → Prop
  | started {p : Progress Flow} : p.Acted m.toSetup i.toSite state.exec → Arises m state i p
  | resumed {value : Val} {exec : Execution} : state.exec.context.Retains exec.context →
      Arises m state i (HandlerM.writing value m.toSetup i.toSite exec)
  | passes {thrown : Thrown} {exec : Execution} :
      (∀ v, thrown = .exception v → state.exec.context.Retains exec.context) →
      Arises m state i (.finished (.error thrown) exec)

/-- The turn of an active instruction lets the frames subside. -/
theorem Arises.turn_subsides (h : m.Arises state i p) :
    (turn i p).Subsides m.toSetup state.exec.context := by
  cases h with
  | started hacted => exact turn_of_acted hacted
  | resumed hretains => exact turn_of_writing _ hretains
  | passes hretains => exact turn_of_error hretains

/-- **How the active instructions of a step come about.** Induction on how many calls the step has
left: what a call is left with are frames that the step began with, unless no caller can stop
the exit. -/
theorem Active.arises (hm : m.Standard) (hwrites : m.AllWrite state)
    (h : m.Active state i p stack) : m.Arises state i p := by
  induction h with
  | @started i handler begun hfetch =>
      have hacted := hm.acts_of_fetch hfetch m.toSetup i.toSite begun
      obtain ⟨rfl, -⟩ := fetch_eq_ok hfetch
      have hfetched : state.exec.context.Advances state.begun.exec.context :=
        ⟨_, Nat.le_succ _, rfl⟩
      exact .started (hacted.after hfetched)
  | @resumed i p s stack exit exec hactive hturn ih =>
      have hs : s.resume = _ := hwrites s (hactive.suffix.mem List.mem_cons_self)
      have hkept : ¬exit.Final → state.exec.context.Retains exec.closeCall.context := by
        intro hnot
        have hsubsides := ih.turn_subsides
        rw [hturn] at hsubsides
        cases hsubsides with
        | leaves hretains => exact hretains
        | ends hfinal => exact absurd hfinal hnot
      rw [hs]
      match exit with
      | .halted => exact .passes nofun
      | .returned value => exact .resumed (hkept not_false)
      | .threw (.exception v) => exact .passes fun _ _ => hkept not_false
      | .threw .halt => exact .passes nofun
      | .threw (.fault fault) => exact .passes nofun

/-- The frames that an exception is thrown from were there when the step began. -/
theorem Active.retains_of_throws (hm : m.Standard) (hwrites : m.AllWrite state)
    (h : m.Active state i (.finished (.error (.exception v)) exec) stack) :
    state.exec.context.Retains exec.context := by
  have harises := h.arises hm hwrites
  generalize hp : Progress.finished (.error (.exception v)) exec = p at harises
  cases harises with
  | started hacted =>
      subst hp
      cases hacted with
      | throws hlooked => exact hlooked.retains
      | fails hthrown => exact absurd rfl (hthrown v)
  | @resumed value exec' hretains =>
      -- Writing a value throws no exception.
      cases hslot : Decoder.slot m.program exec'.context.ip with
      | error fault =>
          rw [HandlerM.writing_of_fault hslot] at hp
          cases hp
      | ok read =>
          rw [HandlerM.writing_of_slot hslot] at hp
          cases hp
  | passes hretains =>
      cases hp
      exact hretains v rfl

/-- **A step lets the frames subside**, or an exception is delivered to one of them. Whatever is
suspended afterwards writes what its callee returns. -/
theorem step_subsides (hm : m.Standard) (hn : state.Nested m.maxCallDepth)
    (hwrites : m.AllWrite state) (h : m.step state = .running next) :
    m.AllWrite next ∧ (state.exec.context.Subsides next.exec.context ∨
      ∃ thrown index v, state.exec.context.Retains thrown ∧
        Context.Caught thrown index v next.exec.context) := by
  rcases m.exists_decides state with ⟨fault, exec, hfetch⟩ | ⟨-, i, p, stack, hactive, hd⟩
  · obtain ⟨after, hstep, -⟩ := step_of_fetch_error hn hfetch
    rw [hstep] at h
    cases h
  · have hturn := (hactive.arises hm hwrites).turn_subsides
    have hrest : ∀ s ∈ stack, s.Writes m.toSetup :=
      fun s hs => hwrites s (hactive.suffix.mem hs)
    rw [h] at hd
    cases hd with
    | goesOn hgoes =>
        rw [hgoes] at hturn
        cases hturn with
        | goesOn hsubsides => exact ⟨hrest, .inl hsubsides⟩
        | delivers hretains hcaught => exact ⟨hrest, .inr ⟨_, _, _, hretains, hcaught⟩⟩
    | waits hwaits =>
        rw [hwaits] at hturn
        cases hturn with
        | waits hs hsubsides => exact ⟨List.forall_mem_cons.mpr ⟨hs, hrest⟩, .inl hsubsides⟩

/-- In every state of a run the suspended instructions write what their callees return. -/
theorem Reaches.allWrite (hm : m.Standard) (hrun : run.Fresh) (h : m.Reaches run state) :
    m.AllWrite state := by
  refine (h.induction (P := fun state => state.Nested m.maxCallDepth ∧ m.AllWrite state) ?_ ?_).2
  · exact ⟨Reaches.nested hm hrun ⟨0, rfl⟩, nofun⟩
  · rintro a b ⟨hn, hwrites⟩ hstep
    exact ⟨nested_of_step hm hn hstep, (step_subsides hm hn hwrites hstep).1⟩

end Machine

end TaggedBytecode
