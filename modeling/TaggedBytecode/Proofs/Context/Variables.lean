import TaggedBytecode.Proofs.Context.Frames

/-!
# Variables of a Context

A variable is looked up along the links of the frames, and an assignment goes to the frame in
which the lookup ends. So a lookup after an assignment finds what was assigned, and every other
variable stays as it was. Nothing of this depends on where the links lead: two contexts whose
frames link and bind alike have the same variables.

## Main results

* `Context.resolve_congr` — frames that link and bind alike have the same variables.
* `Context.resolve_store`, `Context.resolve_assign` — lookups after a write.
-/

namespace TaggedBytecode

namespace Context

variable {a b ctx : Context} {slot other : Nat} {value : Val}

/-- A search sees of a frame whether it is wanted, and where it links to. -/
theorem search_congr {wanted : Nat → Frame → Bool}
    (h : ∀ i, (a.frame? i).map (fun f => (wanted i f, f.parent)) =
      (b.frame? i).map fun f => (wanted i f, f.parent)) (fuel start : Nat) :
    a.search wanted fuel start = b.search wanted fuel start := by
  induction fuel generalizing start with
  | zero => rfl
  | succ fuel ih =>
      have hstart := h start
      rw [search, search]
      cases ha : a.frame? start with
      | none =>
          rw [ha, Option.map_none, eq_comm, Option.map_eq_none_iff] at hstart
          rw [hstart]
      | some f =>
          rw [ha, Option.map_some, eq_comm, Option.map_eq_some_iff] at hstart
          obtain ⟨g, hb, hsame⟩ := hstart
          obtain ⟨hwanted, hparent⟩ := Prod.mk.inj hsame
          simp only [hb, hwanted, hparent, ih]

theorem resolve_of_binder {index : Nat} (h : ctx.binder slot = some index) :
    ctx.resolve slot = (ctx.frame? index).bind (·.locals.get? slot) := by
  rw [resolve, h]
  rfl

/-- Frames that link and bind a slot alike have the same variable in it. -/
theorem resolve_congr (hdepth : a.depth = b.depth)
    (h : ∀ i, (a.frame? i).map (fun f => (f.locals.get? slot, f.parent)) =
      (b.frame? i).map fun f => (f.locals.get? slot, f.parent)) :
    a.resolve slot = b.resolve slot := by
  have hindex : a.currentIndex = b.currentIndex := Nat.succ.inj hdepth
  have hbinds : ∀ i, (a.frame? i).map (fun f => (f.locals.binds slot, f.parent)) =
      (b.frame? i).map fun f => (f.locals.binds slot, f.parent) := by
    intro i
    have hi := congrArg (Option.map fun e : Option Val × Option Nat => (e.1.isSome, e.2)) (h i)
    rwa [Option.map_map, Option.map_map] at hi
  have hbinder : a.binder slot = b.binder slot := by
    rw [binder, binder, nearest, nearest, hdepth, hindex]
    exact search_congr hbinds _ _
  have hvalue : ∀ i, (a.frame? i).bind (·.locals.get? slot) =
      (b.frame? i).bind (·.locals.get? slot) := by
    intro i
    have hi := congrArg (Option.bind · fun e : Option Val × Option Nat => e.1) (h i)
    simp only [Option.bind_map] at hi
    exact hi
  cases hb : b.binder slot with
  | none =>
      rw [resolve, resolve, hbinder, hb]
      rfl
  | some index => rw [resolve_of_binder (hbinder.trans hb), resolve_of_binder hb, hvalue]

/-- Moving the instruction pointer changes no variable. -/
theorem resolve_setIp (ctx : Context) (ip slot : Nat) :
    (ctx.setIp ip).resolve slot = ctx.resolve slot := by
  refine resolve_congr rfl fun i => ?_
  rw [setIp, frame?_withCurrent]
  split
  · rename_i hi
    rw [hi, frame?_currentIndex]
    rfl
  · rfl

/-! ### Writes -/

/-- Binding a slot of a frame changes no variable in another slot. -/
theorem resolve_modifyFrame_of_ne (ctx : Context) (index : Nat) (value : Val)
    (hne : other ≠ slot) :
    (ctx.modifyFrame index (·.store slot value)).resolve other = ctx.resolve other := by
  have hget : ∀ f : Frame, (f.store slot value).locals.get? other = f.locals.get? other :=
    fun f => (f.locals.get?_store slot other value).trans (if_neg hne)
  refine resolve_congr (ctx.depth_modifyFrame _ _) fun i => ?_
  rw [frame?_modifyFrame]
  split
  · simp only [Option.map_map, Function.comp_def, hget]
    rfl
  · rfl

/-- The frame that binds a variable is found again after the variable is bound there anew: it
still binds it, and all links are as they were. -/
theorem resolve_modifyFrame_binder {index : Nat} (h : ctx.binder slot = some index)
    (value : Val) : (ctx.modifyFrame index (·.store slot value)).resolve slot = some value := by
  obtain ⟨f, hf, hbinds⟩ := nearest_sound h
  have hget : ∀ f : Frame, (f.store slot value).locals.get? slot = some value :=
    fun f => (f.locals.get?_store slot slot value).trans (if_pos rfl)
  have hdepth := ctx.depth_modifyFrame index (·.store slot value)
  have hindex : (ctx.modifyFrame index (·.store slot value)).currentIndex = ctx.currentIndex :=
    Nat.succ.inj hdepth
  have hbinder : (ctx.modifyFrame index (·.store slot value)).binder slot = some index := by
    rw [← h, binder, binder, nearest, nearest, hdepth, hindex]
    refine search_congr (fun i => ?_) _ _
    rw [frame?_modifyFrame]
    split
    · rename_i hi
      rw [hi, hf, Option.map_some, Option.map_some, Option.map_some, hbinds, Locals.binds, hget]
      rfl
    · rfl
  rw [resolve_of_binder hbinder, frame?_modifyFrame, if_pos rfl, hf]
  exact hget f

/-- A write to the current frame is found there at once. -/
theorem resolve_store_self (ctx : Context) (slot : Nat) (value : Val) :
    (ctx.store slot value).resolve slot = some value := by
  have hget : (ctx.current.store slot value).locals.get? slot = some value :=
    (ctx.current.locals.get?_store slot slot value).trans (if_pos rfl)
  have hcurrent : (ctx.store slot value).frame? ctx.currentIndex =
      some (ctx.current.store slot value) := (ctx.store slot value).frame?_currentIndex
  have hbinder : (ctx.store slot value).binder slot = some ctx.currentIndex := by
    change (ctx.store slot value).search (fun _ f => f.locals.binds slot)
      (ctx.currentIndex + 1) ctx.currentIndex = _
    rw [search, hcurrent]
    refine if_pos ?_
    rw [Locals.binds, hget]
    rfl
  rw [resolve_of_binder hbinder, hcurrent]
  exact hget

/-- **After a write to the current frame** the variable has the value, and every other one is
as before. -/
theorem resolve_store (ctx : Context) (slot other : Nat) (value : Val) :
    (ctx.store slot value).resolve other =
      if other = slot then some value else ctx.resolve other := by
  have hmodify : ctx.store slot value = ctx.modifyFrame ctx.currentIndex (·.store slot value) :=
    (if_pos rfl).symm
  split
  · rename_i heq
    rw [heq, resolve_store_self]
  · rename_i hne
    rw [hmodify, resolve_modifyFrame_of_ne _ _ _ hne]

/-- **After an assignment** the variable has the value, and every other one is as before. -/
theorem resolve_assign (ctx : Context) (slot other : Nat) (value : Val) :
    (ctx.assign slot value).resolve other =
      if other = slot then some value else ctx.resolve other := by
  rw [assign]
  split
  · rename_i index hindex
    split
    · rename_i heq
      rw [heq, resolve_modifyFrame_binder hindex]
    · rename_i hne
      exact resolve_modifyFrame_of_ne _ _ _ hne
  · exact ctx.resolve_store slot other value

end Context

end TaggedBytecode
