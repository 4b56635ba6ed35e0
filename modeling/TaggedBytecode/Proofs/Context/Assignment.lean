import TaggedBytecode.Proofs.Context.Histories
import TaggedBytecode.Proofs.Context.Variables

/-!
# Assignments Change One Binding

An assignment goes to the innermost frame that binds the slot, and to the current frame if none
does. It is a write to that one frame, and a write to a frame can be put off: releasing the
frames above and writing then gives the same context as writing first. So what an assignment
does to the variables can be told for the context at hand and for all that are left after any
number of pops. A frame that grows for the write gets empty slots only.

## Main definitions

* `Frame.Rebound` — a frame after a slot of it was bound.
* `Context.Receives` — the frame to which an assignment goes.

## Main results

* `Context.perform_pop_modifyFrame` — a pop and a write to one frame commute.
* `Context.Linked.resolve_modifyFrame` — a variable after a write to a frame below which it is
  looked up.
* `Context.assign_changes_one_binding` — what an assignment changes, and that it changes nothing
  else.
-/

namespace TaggedBytecode

/-- A frame after one of its slots was bound: it has the slots that it needs, all others are
bound or empty as they were, and nothing but its variables changed. -/
structure Frame.Rebound (slot : Nat) (value : Val) (f g : Frame) : Prop where
  ip : g.ip = f.ip
  kind : g.kind = f.kind
  parent : g.parent = f.parent
  handler : g.handler = f.handler
  pending : g.pending = f.pending
  size : g.locals.size = max f.locals.size (slot + 1)
  get? : ∀ other, g.locals.get? other = if other = slot then some value else f.locals.get? other

theorem Frame.rebound_store (f : Frame) (slot : Nat) (value : Val) :
    f.Rebound slot value (f.store slot value) :=
  ⟨rfl, rfl, rfl, rfl, rfl, rfl, fun other => f.locals.get?_store slot other value⟩

namespace Context

variable {ctx : Context} {slot target : Nat}

/-! ### Pops and writes -/

/-- A pop of what was pushed hands on the instruction pointer of a scope. -/
theorem pop_push (ctx : Context) (f : Frame) :
    (ctx.push f).pop = some (f, ctx.setIp (if f.kind = .scope then f.ip else ctx.ip)) := by
  simp only [pop, push, setIp, Array.back?_push, Array.pop_push]
  rfl

/-- A context has the root frame alone, or a frame on top of another context. -/
theorem depth_eq_one_or_exists_push (ctx : Context) :
    ctx.depth = 1 ∨ ∃ base f, ctx = push base f := by
  obtain ⟨outer, current, length⟩ := ctx
  cases hback : outer.back? with
  | none => exact .inl (by simp_all [depth])
  | some below =>
      obtain ⟨lower, rfl⟩ := Array.back?_eq_some_iff.mp hback
      exact .inr ⟨⟨lower, below, length⟩, current, rfl⟩

theorem pop_of_depth_eq_one (h : ctx.depth = 1) : ctx.pop = none := by
  have hempty : ctx.outer = #[] := Array.size_eq_zero_iff.mp (Nat.succ.inj h)
  simp [pop, hempty]

theorem modifyFrame_push_depth (ctx : Context) (f : Frame) (g : Frame → Frame) :
    (ctx.push f).modifyFrame ctx.depth g = ctx.push (g f) := by
  simp [modifyFrame, push, depth]

theorem modifyFrame_push_of_ne {index : Nat} (h : index ≠ ctx.depth) (f : Frame)
    (g : Frame → Frame) :
    (ctx.push f).modifyFrame index g = (ctx.modifyFrame index g).push f := by
  refine ext_frame? ?_ fun i => ?_
  · rw [programLength_modifyFrame]
    exact (ctx.programLength_modifyFrame index g).symm
  · simp only [frame?_modifyFrame, frame?_push, depth_modifyFrame]
    by_cases htop : i = ctx.depth
    · simp only [htop, if_true, if_neg h.symm]
    · simp only [htop, if_false]

theorem modifyFrame_of_le {index : Nat} (h : ctx.depth ≤ index) (g : Frame → Frame) :
    ctx.modifyFrame index g = ctx := by
  refine ext_frame? (ctx.programLength_modifyFrame index g) fun i => ?_
  rw [frame?_modifyFrame]
  split
  · rename_i hi
    rw [hi, frame?_eq_none_iff.mpr h, Option.map_none]
  · rfl

theorem ip_modifyFrame (ctx : Context) (index slot : Nat) (value : Val) :
    (ctx.modifyFrame index (·.store slot value)).ip = ctx.ip := by
  by_cases h : index = ctx.outer.size
  · simp only [modifyFrame, h, if_true]
    rfl
  · simp only [modifyFrame, h, if_false]
    rfl

theorem setIp_modifyFrame (ctx : Context) (index ip slot : Nat) (value : Val) :
    (ctx.modifyFrame index (·.store slot value)).setIp ip =
      (ctx.setIp ip).modifyFrame index (·.store slot value) := by
  by_cases h : index = ctx.outer.size
  · simp only [modifyFrame, setIp, h, if_true]
    rfl
  · simp only [modifyFrame, setIp, h, if_false]

/-- **A pop and a write to one frame commute.** What a pop hands on is no variable, and if the
frame is the one that is released, nothing is left of the write. -/
theorem perform_pop_modifyFrame (ctx : Context) (index slot : Nat) (value : Val) :
    ((ctx.modifyFrame index (·.store slot value)).perform .pop).2 =
      (ctx.perform .pop).2.modifyFrame index (·.store slot value) := by
  simp only [perform]
  rcases ctx.depth_eq_one_or_exists_push with hroot | ⟨base, f, rfl⟩
  · rw [pop_of_depth_eq_one hroot, pop_of_depth_eq_one ((ctx.depth_modifyFrame _ _).trans hroot)]
    rfl
  · by_cases hindex : index = base.depth
    · subst hindex
      rw [modifyFrame_push_depth, pop_push, pop_push]
      exact (modifyFrame_of_le (Nat.le_refl _) _).symm
    · rw [modifyFrame_push_of_ne hindex, pop_push, pop_push, ip_modifyFrame]
      exact setIp_modifyFrame base index _ slot value

/-- The context that is left after a number of pops. -/
def popped (ctx : Context) (pops : Nat) : Context :=
  ctx.performAll (List.replicate pops .pop)

/-- Pops commute with a write to one frame. Induction on the number of pops. -/
theorem popped_modifyFrame (ctx : Context) (pops index slot : Nat) (value : Val) :
    (ctx.modifyFrame index (·.store slot value)).popped pops =
      (ctx.popped pops).modifyFrame index (·.store slot value) := by
  induction pops generalizing ctx with
  | zero => rfl
  | succ pops ih =>
      change ((ctx.modifyFrame index (·.store slot value)).perform .pop).2.popped pops = _
      rw [perform_pop_modifyFrame, ih]
      rfl

/-- A frame that a pop leaves binds what it bound. -/
theorem locals_of_pop {i : Nat} {g : Frame} (hg : (ctx.perform .pop).2.frame? i = some g) :
    ∃ f, ctx.frame? i = some f ∧ g.locals = f.locals := by
  simp only [perform] at hg
  cases hpop : ctx.pop with
  | none =>
      rw [hpop] at hg
      exact ⟨g, hg, rfl⟩
  | some result =>
      rw [hpop] at hg
      obtain ⟨-, -, hkept, below, hbelow, ip, hcurrent⟩ := pop_eq_some hpop
      by_cases htop : i = result.2.currentIndex
      · subst htop
        obtain rfl := Option.some.inj ((frame?_currentIndex _).symm.trans hg)
        exact ⟨below, hbelow, hcurrent ▸ rfl⟩
      · have hi : i < result.2.currentIndex :=
          Nat.lt_of_le_of_ne (Nat.le_of_lt_succ (lt_depth_of_frame? hg)) htop
        exact ⟨g, (hkept i hi).symm.trans hg, rfl⟩

/-- The frames that are left after a number of pops bind what they bound. Induction on the
number of pops. -/
theorem locals_of_popped {pops i : Nat} {g : Frame} (hg : (ctx.popped pops).frame? i = some g) :
    ∃ f, ctx.frame? i = some f ∧ g.locals = f.locals := by
  induction pops generalizing ctx with
  | zero => exact ⟨g, hg, rfl⟩
  | succ pops ih =>
      obtain ⟨f, hf, hgf⟩ := ih hg
      obtain ⟨e, he, hfe⟩ := locals_of_pop hf
      exact ⟨e, he, hgf.trans hfe⟩

/-! ### Writes and lookups -/

theorem Linked.modifyFrame (h : ctx.Linked) (index slot : Nat) (value : Val) :
    (ctx.modifyFrame index (·.store slot value)).Linked := by
  constructor
  · intro g hg
    rw [frame?_modifyFrame] at hg
    split at hg
    · obtain ⟨f, hf, rfl⟩ := Option.map_eq_some_iff.mp hg
      exact h.root f hf
    · exact h.root g hg
  · intro i g hg
    rw [frame?_modifyFrame] at hg
    split at hg
    · obtain ⟨f, hf, rfl⟩ := Option.map_eq_some_iff.mp hg
      exact h.child i f hf
    · exact h.child i g hg

/-- **A write is found from every frame above it**, as long as none of those binds the slot. -/
theorem Linked.resolve_modifyFrame (h : ctx.Linked) (htarget : target < ctx.depth)
    (habove : ∀ i f, target < i → ctx.frame? i = some f → f.locals.binds slot = false)
    (value : Val) : (ctx.modifyFrame target (·.store slot value)).resolve slot = some value := by
  obtain ⟨f, hf⟩ := exists_frame?_of_lt htarget
  have hget : (f.store slot value).locals.get? slot = some value :=
    (f.locals.get?_store slot slot value).trans (if_pos rfl)
  have hwritten : (ctx.modifyFrame target (·.store slot value)).frame? target =
      some (f.store slot value) := by
    rw [frame?_modifyFrame, if_pos rfl, hf, Option.map_some]
  have hbinder : (ctx.modifyFrame target (·.store slot value)).binder slot = some target := by
    refine (h.modifyFrame target slot value).nearest_eq_some_iff.mpr ⟨⟨_, hwritten, ?_⟩, ?_⟩
    · rw [Locals.binds, hget]
      rfl
    · rintro i ⟨g, hg, hbinds⟩
      by_contra hlt
      rw [frame?_modifyFrame, if_neg (Nat.ne_of_gt (Nat.lt_of_not_le hlt))] at hg
      rw [habove i g (Nat.lt_of_not_le hlt) hg] at hbinds
      cases hbinds
  rw [resolve_of_binder hbinder, hwritten]
  exact hget

/-! ### Assignments -/

/-- The frame to which an assignment goes: the innermost one that binds the slot, and the
current frame if none does. -/
def Receives (ctx : Context) (slot target : Nat) : Prop :=
  IsGreatest {i | ∃ f, ctx.frames[i]? = some f ∧ f.locals.binds slot = true} target ∨
    (∀ f ∈ ctx.frames, f.locals.binds slot = false) ∧ target = ctx.currentIndex

theorem Receives.lt_depth (h : ctx.Receives slot target) : target < ctx.depth := by
  rcases h with ⟨⟨f, hf, -⟩, -⟩ | ⟨-, rfl⟩
  · rw [getElem?_frames] at hf
    exact lt_depth_of_frame? hf
  · exact ctx.currentIndex_lt_depth

/-- No frame above the one that receives an assignment binds the slot. -/
theorem Receives.binds_eq_false (h : ctx.Receives slot target) {i : Nat} {f : Frame}
    (hi : target < i) (hf : ctx.frame? i = some f) : f.locals.binds slot = false := by
  rw [← getElem?_frames] at hf
  rcases h with ⟨-, hgreatest⟩ | ⟨hnone, -⟩
  · by_contra hbinds
    exact Nat.not_le_of_lt hi (hgreatest ⟨f, hf, Bool.eq_true_of_not_eq_false hbinds⟩)
  · exact hnone f (List.mem_of_getElem? hf)

/-- **An assignment is a write to the frame that receives it.** -/
theorem Linked.exists_assign_eq (h : ctx.Linked) (slot : Nat) (value : Val) :
    ∃ target, ctx.Receives slot target ∧
      ctx.assign slot value = ctx.modifyFrame target (·.store slot value) := by
  cases hbinder : ctx.binder slot with
  | some index =>
      refine ⟨index, .inl ?_, by rw [assign, hbinder]⟩
      simp only [getElem?_frames]
      exact h.nearest_eq_some_iff.mp hbinder
  | none =>
      refine ⟨ctx.currentIndex, .inr ⟨fun f hf => ?_, rfl⟩, ?_⟩
      · obtain ⟨i, hi⟩ := List.getElem?_of_mem hf
        rw [getElem?_frames] at hi
        exact h.nearest_eq_none_iff.mp hbinder i f hi
      · rw [assign, hbinder]
        exact (if_pos rfl).symm

/-- A variable after a write to the frame that received an assignment, in the contexts that pops
leave: the frames above the receiver do not bind the slot, whichever of them are left. -/
theorem WellFormed.resolve_popped {programLength : Nat} (h : ctx.WellFormed programLength)
    (htarget : ctx.Receives slot target) (value : Val) (pops other : Nat) :
    ((ctx.modifyFrame target (·.store slot value)).popped pops).resolve other =
      if other = slot ∧ target < (ctx.popped pops).depth then some value
      else (ctx.popped pops).resolve other := by
  have hlinked : (ctx.popped pops).Linked := (h.performAll _).linked
  rw [popped_modifyFrame]
  by_cases hother : other = slot
  · subst hother
    by_cases hleft : target < (ctx.popped pops).depth
    · rw [if_pos ⟨rfl, hleft⟩]
      refine hlinked.resolve_modifyFrame hleft (fun i g hi hg => ?_) value
      obtain ⟨f, hf, hlocals⟩ := locals_of_popped hg
      exact hlocals ▸ htarget.binds_eq_false hi hf
    · rw [if_neg (fun hand => hleft hand.2), modifyFrame_of_le (Nat.le_of_not_lt hleft)]
  · rw [if_neg (fun hand => hother hand.1), resolve_modifyFrame_of_ne _ _ _ hother]

/-- **An assignment changes one binding.** After every history of a fresh context one slot of one
frame is bound to the value: of the innermost frame that bound it, or of the current frame if
none did. That frame has as many slots as it needs for it, its other slots are bound or empty as
they were, and so is everything else of all frames. From the current frame and after any number
of pops the variable has the value if the frame is still there; every other variable, and this
one if the frame is gone, is as if nothing had been assigned. -/
theorem assign_changes_one_binding (programLength entry : Nat) (history : List Operation)
    {ctx : Context} (hctx : (start programLength entry).performAll history = ctx) (slot : Nat)
    (value : Val) :
    ∃ target, ctx.Receives slot target ∧
      (ctx.assign slot value).programLength = ctx.programLength ∧
      (ctx.assign slot value).depth = ctx.depth ∧
      (∃ f g, ctx.frames[target]? = some f ∧ (ctx.assign slot value).frames[target]? = some g ∧
        f.Rebound slot value g) ∧
      (∀ i ≠ target, (ctx.assign slot value).frames[i]? = ctx.frames[i]?) ∧
      (ctx.assign slot value).resolve slot = some value ∧
      ∀ pops other, ((ctx.assign slot value).popped pops).resolve other =
        if other = slot ∧ target < (ctx.popped pops).depth then some value
        else (ctx.popped pops).resolve other := by
  have hwell : ctx.WellFormed programLength :=
    hctx ▸ (wellFormed_start _ entry).performAll history
  obtain ⟨target, htarget, hassign⟩ := hwell.linked.exists_assign_eq slot value
  obtain ⟨f, hf⟩ := exists_frame?_of_lt htarget.lt_depth
  refine ⟨target, htarget, ?_, ?_, ⟨f, f.store slot value, ?_, ?_, f.rebound_store slot value⟩,
    fun i hi => ?_, ?_, fun pops other => ?_⟩
  · rw [hassign, programLength_modifyFrame]
  · rw [hassign, depth_modifyFrame]
  · rw [getElem?_frames, hf]
  · rw [hassign, getElem?_frames, frame?_modifyFrame, if_pos rfl, hf, Option.map_some]
  · rw [hassign, getElem?_frames, getElem?_frames, frame?_modifyFrame, if_neg hi]
  · rw [resolve_assign, if_pos rfl]
  · rw [hassign, hwell.resolve_popped htarget]

/-- The root binds slot 2, the scope above it slots 2 and 5, and the scope on top nothing. -/
def boundBelowTop : List Operation :=
  [.store 2 (.int 1), .pushScope none, .store 2 (.int 3), .store 5 (.int 2), .pushScope none]

/-- Slot 2 is assigned in the middle frame, so after one pop it has the new value and after two
the value that the root binds. Slot 7 is bound nowhere: the frame on top grows to eight slots for
it, and slot 5 is looked up below as before. -/
theorem assign_changes_one_binding_boundBelowTop :
    ∃ ctx, (start 8).performAll boundBelowTop = ctx ∧
      ((ctx.assign 2 (.int 9)).popped 1).resolve 2 = some (.int 9) ∧
      ((ctx.assign 2 (.int 9)).popped 2).resolve 2 = some (.int 1) ∧
      (∃ g, (ctx.assign 7 (.int 9)).frames[2]? = some g ∧ g.locals.size = 8 ∧
        g.locals.get? 5 = none) ∧
      ((ctx.assign 7 (.int 9)).popped 0).resolve 5 = some (.int 2) := by
  obtain ⟨middle, hmiddle, -, -, -, -, -, hpops⟩ :=
    assign_changes_one_binding 8 0 boundBelowTop rfl 2 (.int 9)
  obtain ⟨top, htop, -, -, ⟨f, g, hf, hg, hgrown⟩, -, -, hpop⟩ :=
    assign_changes_one_binding 8 0 boundBelowTop rfl 7 (.int 9)
  obtain rfl : middle = 1 := by
    rcases hmiddle with ⟨⟨e, he, hbinds⟩, hgreatest⟩ | ⟨hnone, -⟩
    · refine Nat.le_antisymm (Nat.le_of_not_lt fun hlt => ?_) (hgreatest ⟨_, rfl, rfl⟩)
      obtain rfl : middle = 2 := Nat.le_antisymm
        (Nat.le_of_lt_succ (lt_depth_of_frame? ((getElem?_frames _ _).symm.trans he))) hlt
      obtain rfl := Option.some.inj he
      cases hbinds
    · cases hnone _ (List.mem_of_getElem? (i := 1) rfl)
  obtain rfl : top = 2 := by
    rcases htop with ⟨⟨e, he, hbinds⟩, -⟩ | ⟨-, htop⟩
    · have hlt : top < 3 := lt_depth_of_frame? ((getElem?_frames _ _).symm.trans he)
      interval_cases top <;> obtain rfl := Option.some.inj he <;> cases hbinds
    · exact htop
  obtain rfl := Option.some.inj hf
  refine ⟨_, rfl, hpops 1 2, hpops 2 2, ⟨g, hg, hgrown.size, hgrown.get? 5⟩, hpop 0 5⟩

end Context

end TaggedBytecode
