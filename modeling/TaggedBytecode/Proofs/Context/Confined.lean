import Mathlib.Data.Option.Basic
import TaggedBytecode.Proofs.Context.Frames

/-!
# Confined Changes of a Context

The frames from some **base** on belong to the innermost call, and the frames below it to its
callers. A change of a context is **confined** to the frames from the base on if the frames
below stay **alike**: at most the values of slots that they already bind change. From the base
on, a confined change may arm, disarm, add and release frames, but it keeps the frame at the
base, and the frames that it adds above are scopes.

## Main definitions

* `Frame.Alike` — two frames that differ at most in the values of bound slots.
* `Context.AlikeBelow` — contexts whose frames below a base are alike.
* `Context.Confined` — a change confined to the frames from a base on.

## Main results

* `Context.Confined.trans`, `Context.Confined.mono` — confined changes compose, and a change
  confined to fewer frames is confined to more.
* `Context.confined_assign`, `Context.confined_pushScope`, `Context.confined_pop`,
  `Context.confined_raise` — what running code does to frames is confined.
* `Context.Confined.linked` — links survive.
* `Context.Confined.truncate` — releasing frames above the base is confined.
-/

namespace TaggedBytecode

/-- Two frames that bind the same slots and agree in everything but the values there. -/
structure Frame.Alike (f g : Frame) : Prop where
  ip : g.ip = f.ip
  kind : g.kind = f.kind
  parent : g.parent = f.parent
  handler : g.handler = f.handler
  pending : g.pending = f.pending
  binds : ∀ slot, g.locals.binds slot = f.locals.binds slot

namespace Frame.Alike

theorem refl (f : Frame) : f.Alike f :=
  ⟨rfl, rfl, rfl, rfl, rfl, fun _ => rfl⟩

theorem trans {f g h : Frame} (hfg : f.Alike g) (hgh : g.Alike h) : f.Alike h where
  ip := hgh.ip.trans hfg.ip
  kind := hgh.kind.trans hfg.kind
  parent := hgh.parent.trans hfg.parent
  handler := hgh.handler.trans hfg.handler
  pending := hgh.pending.trans hfg.pending
  binds slot := (hgh.binds slot).trans (hfg.binds slot)

/-- Storing to a slot that is bound changes no more than its value. -/
theorem store {f : Frame} {slot : Nat} (h : f.locals.binds slot = true) (value : Val) :
    f.Alike (f.store slot value) where
  ip := rfl
  kind := rfl
  parent := rfl
  handler := rfl
  pending := rfl
  binds j := by
    simp only [Frame.store, Locals.binds, Locals.get?_store]
    split
    · rename_i hj
      rw [hj]
      exact h.symm
    · rfl

end Frame.Alike

namespace Context

/-- The frames below `base` are alike in both contexts. -/
def AlikeBelow (base : Nat) (a b : Context) : Prop :=
  ∀ i < base, Option.Rel Frame.Alike (a.frame? i) (b.frame? i)

/-- The change from `a` to `b` is confined to the frames from `base` on. -/
structure Confined (base : Nat) (a b : Context) : Prop where
  base_lt : base < b.depth
  programLength : b.programLength = a.programLength
  below : AlikeBelow base a b
  /-- A frame from the base on was there before, or it is a scope on the frame below it. -/
  above : ∀ i g, base ≤ i → b.frame? i = some g →
    (∃ f, a.frame? i = some f ∧ g.kind = f.kind ∧ g.parent = f.parent) ∨
      (base < i ∧ g.kind = .scope ∧ g.parent = some (i - 1))

variable {base : Nat} {a b c : Context}

/-! ### Frames that stay alike -/

/-- A frame below the base is still there, and alike. -/
theorem AlikeBelow.exists_alike (h : AlikeBelow base a b) {i : Nat} {f : Frame} (hi : i < base)
    (hf : a.frame? i = some f) : ∃ g, b.frame? i = some g ∧ f.Alike g := by
  have hrel := h i hi
  rw [hf] at hrel
  cases hg : b.frame? i with
  | none => simp [hg] at hrel
  | some g =>
      rw [hg, Option.rel_some_some] at hrel
      exact ⟨g, rfl, hrel⟩

/-- Every frame below the base was there before. -/
theorem AlikeBelow.exists_alike_before (h : AlikeBelow base a b) {i : Nat} {g : Frame}
    (hi : i < base) (hg : b.frame? i = some g) : ∃ f, a.frame? i = some f ∧ f.Alike g := by
  have hrel := h i hi
  rw [hg] at hrel
  cases hf : a.frame? i with
  | none => simp [hf] at hrel
  | some f =>
      rw [hf, Option.rel_some_some] at hrel
      exact ⟨f, rfl, hrel⟩

/-- Frames that did not change are alike. -/
theorem alikeBelow_of_eq (h : ∀ i < base, b.frame? i = a.frame? i) : AlikeBelow base a b := by
  intro i hi
  rw [h i hi]
  cases a.frame? i with
  | none => exact Option.Rel.none
  | some f => exact Option.Rel.some (Frame.Alike.refl f)

theorem AlikeBelow.trans (hab : AlikeBelow base a b) (hbc : AlikeBelow base b c) :
    AlikeBelow base a c := by
  intro i hi
  have h₁ := hab i hi
  have h₂ := hbc i hi
  cases ha : a.frame? i <;> cases hb : b.frame? i <;> cases hc : c.frame? i <;>
    simp_all only [Option.rel_none_none, Option.rel_some_some, Option.not_rel_some_none,
      Option.not_rel_none_some]
  exact h₁.trans h₂

theorem AlikeBelow.mono {lower : Nat} (h : AlikeBelow base a b) (hle : lower ≤ base) :
    AlikeBelow lower a b :=
  fun i hi => h i (Nat.lt_of_lt_of_le hi hle)

/-! ### Confined changes compose -/

theorem Confined.refl (h : base < a.depth) : Confined base a a where
  base_lt := h
  programLength := rfl
  below := alikeBelow_of_eq fun _ _ => rfl
  above _ g _ hg := .inl ⟨g, hg, rfl, rfl⟩

theorem Confined.trans (hab : Confined base a b) (hbc : Confined base b c) :
    Confined base a c where
  base_lt := hbc.base_lt
  programLength := hbc.programLength.trans hab.programLength
  below := hab.below.trans hbc.below
  above i g hi hg := by
    rcases hbc.above i g hi hg with ⟨f, hf, hkind, hparent⟩ | hscope
    · rcases hab.above i f hi hf with ⟨e, he, hkind', hparent'⟩ | ⟨hlt, hkind', hparent'⟩
      · exact .inl ⟨e, he, hkind.trans hkind', hparent.trans hparent'⟩
      · exact .inr ⟨hlt, hkind.trans hkind', hparent.trans hparent'⟩
    · exact .inr hscope

/-- A change confined to fewer frames is confined to more. -/
theorem Confined.mono {lower : Nat} (h : Confined base a b) (hle : lower ≤ base) :
    Confined lower a b where
  base_lt := Nat.lt_of_le_of_lt hle h.base_lt
  programLength := h.programLength
  below := h.below.mono hle
  above i g hi hg := by
    by_cases hbase : i < base
    · obtain ⟨f, hf, halike⟩ := h.below.exists_alike_before hbase hg
      exact .inl ⟨f, hf, halike.kind, halike.parent⟩
    · rcases h.above i g (Nat.le_of_not_lt hbase) hg with hkept | ⟨hlt, hscope⟩
      · exact .inl hkept
      · exact .inr ⟨Nat.lt_of_le_of_lt hle hlt, hscope⟩

/-- Links survive a confined change. -/
theorem Confined.linked (h : Confined base a b) (ha : a.Linked) : b.Linked := by
  constructor
  · intro g hg
    by_cases hbase : 0 < base
    · obtain ⟨f, hf, halike⟩ := h.below.exists_alike_before hbase hg
      exact halike.parent.trans (ha.root f hf)
    · rcases h.above 0 g (Nat.le_of_not_lt hbase) hg with ⟨f, hf, -, hparent⟩ | ⟨hlt, -⟩
      · exact hparent.trans (ha.root f hf)
      · exact absurd hlt (Nat.not_lt_zero _)
  · intro i g hg
    by_cases hbase : i + 1 < base
    · obtain ⟨f, hf, halike⟩ := h.below.exists_alike_before hbase hg
      exact halike.parent.trans (ha.child i f hf)
    · rcases h.above _ g (Nat.le_of_not_lt hbase) hg with ⟨f, hf, -, hparent⟩ | ⟨-, -, hparent⟩
      · exact hparent.trans (ha.child i f hf)
      · simpa using hparent

/-! ### Changes of frames that exist -/

/-- A change that keeps the stack as it is, keeps the frames below the base alike, and keeps
kinds and links is confined. -/
theorem confined_of_frames (h : base < a.depth) (hdepth : b.depth = a.depth)
    (hlen : b.programLength = a.programLength)
    (hframes : ∀ i f, a.frame? i = some f → ∃ g, b.frame? i = some g ∧
      (i < base → f.Alike g) ∧ g.kind = f.kind ∧ g.parent = f.parent) : Confined base a b where
  base_lt := hdepth ▸ h
  programLength := hlen
  below i hi := by
    obtain ⟨f, hf⟩ := exists_frame?_of_lt (Nat.lt_trans hi h)
    obtain ⟨g, hg, halike, -⟩ := hframes i f hf
    rw [hf, hg]
    exact Option.Rel.some (halike hi)
  above i g _ hg := by
    obtain ⟨f, hf⟩ := exists_frame?_of_lt (hdepth ▸ lt_depth_of_frame? hg)
    obtain ⟨g', hg', -, hkind, hparent⟩ := hframes i f hf
    obtain rfl : g' = g := Option.some.inj (hg'.symm.trans hg)
    exact .inl ⟨f, hf, hkind, hparent⟩

/-- A change of the current frame that keeps its kind and its link is confined. -/
theorem confined_withCurrent (h : base < a.depth) {f : Frame} (hkind : f.kind = a.current.kind)
    (hparent : f.parent = a.current.parent) : Confined base a { a with current := f } := by
  refine confined_of_frames h rfl rfl fun i e he => ?_
  rw [frame?_withCurrent]
  split
  · rename_i hi
    rw [hi, frame?_currentIndex, Option.some.injEq] at he
    subst he
    refine ⟨f, rfl, fun hlt => ?_, hkind, hparent⟩
    exact absurd hlt (by rw [hi]; exact Nat.not_lt_of_le (Nat.le_of_lt_succ h))
  · exact ⟨e, he, fun _ => Frame.Alike.refl e, rfl, rfl⟩

theorem confined_setIp (h : base < a.depth) (ip : Nat) : Confined base a (a.setIp ip) :=
  confined_withCurrent h rfl rfl

theorem confined_store (h : base < a.depth) (slot : Nat) (value : Val) :
    Confined base a (a.store slot value) :=
  confined_withCurrent h rfl rfl

/-- Assigning a variable changes the current frame, or the value of a slot that its frame
binds already. -/
theorem confined_assign (h : base < a.depth) (slot : Nat) (value : Val) :
    Confined base a (a.assign slot value) := by
  rw [assign]
  cases hbinder : a.binder slot with
  | none => exact confined_store h slot value
  | some index =>
      -- The binder may be a caller's frame, but it binds the slot already.
      obtain ⟨f, hf, hbinds⟩ := nearest_sound hbinder
      refine confined_of_frames h (depth_modifyFrame _ _ _) (programLength_modifyFrame _ _ _) ?_
      intro i e he
      rw [frame?_modifyFrame]
      split
      · rename_i hi
        subst hi
        obtain rfl : f = e := Option.some.inj (hf.symm.trans he)
        exact ⟨f.store slot value, by rw [he]; rfl,
          fun _ => Frame.Alike.store hbinds value, rfl, rfl⟩
      · exact ⟨e, he, fun _ => Frame.Alike.refl e, rfl, rfl⟩

theorem confined_jump (h : base < a.depth) {target : Nat} (hjump : a.jump target = .ok b) :
    Confined base a b := by
  rw [jump, checkTarget] at hjump
  split at hjump <;> simp only [Except.map, Except.ok.injEq, reduceCtorEq] at hjump
  exact hjump ▸ confined_setIp h target

theorem confined_write (h : base < a.depth) {program : Program} {value : Val} {slot : Nat}
    (hwrite : a.write program value = .ok (slot, b)) : Confined base a b := by
  rw [write] at hwrite
  cases hslot : Decoder.slot program a.ip with
  | error fault => simp [hslot, bind, Except.bind] at hwrite
  | ok read =>
      simp only [hslot, bind, Except.bind, pure, Except.pure, Except.ok.injEq,
        Prod.mk.injEq] at hwrite
      rw [← hwrite.2]
      have hip := confined_setIp h read.2
      exact hip.trans (confined_store hip.base_lt _ _)

theorem confined_readVar (h : base < a.depth) (program : Program) :
    Confined base a (a.readVar program).2 := by
  rw [readVar]
  split
  · exact Confined.refl h
  · simp only
    split <;> exact confined_setIp h _

/-! ### Changes of the stack -/

theorem confined_pushScope (h : base < a.depth) {handler : Option Nat}
    (hpush : a.pushScope handler = .ok b) : Confined base a b := by
  obtain ⟨scope, hkind, hparent, rfl⟩ : ∃ scope : Frame, scope.kind = .scope ∧
      scope.parent = some a.currentIndex ∧ a.push scope = b := by
    simp only [pushScope, checkTarget] at hpush
    split at hpush
    · split at hpush <;> simp only [Except.map, Except.ok.injEq, reduceCtorEq] at hpush
      exact ⟨_, rfl, rfl, hpush⟩
    · simp only [Except.ok.injEq] at hpush
      exact ⟨_, rfl, rfl, hpush⟩
  refine ⟨by rw [depth_push]; omega, rfl, alikeBelow_of_eq fun i hi => ?_, fun i g hi hg => ?_⟩
  · rw [frame?_push, if_neg (by omega)]
  · rw [frame?_push] at hg
    split at hg
    · rename_i hdepth
      obtain rfl := Option.some.inj hg
      refine .inr ⟨by omega, hkind, ?_⟩
      rw [hparent, hdepth]
      rfl
    · exact .inl ⟨g, hg, rfl, rfl⟩

/-- A pop is confined as long as a frame from the base on remains. -/
theorem confined_pop {released : Frame} (h : base + 1 < a.depth)
    (hpop : a.pop = some (released, b)) : Confined base a b := by
  obtain ⟨hdepth, hlen, hkept, below, hbelow, ip, hcurrent⟩ := pop_eq_some hpop
  have hindex : b.currentIndex + 1 = b.depth := rfl
  refine ⟨by omega, hlen, alikeBelow_of_eq fun i hi => hkept i (by omega), fun i g hi hg => ?_⟩
  by_cases htop : i = b.currentIndex
  · rw [htop, frame?_currentIndex, Option.some.injEq, hcurrent] at hg
    subst hg
    exact .inl ⟨below, htop ▸ hbelow, rfl, rfl⟩
  · have hi' := lt_depth_of_frame? hg
    rw [hkept i (by omega)] at hg
    exact .inl ⟨g, hg, rfl, rfl⟩

/-- An exception that is caught above the base changes nothing below it. -/
theorem Caught.confined {index : Nat} {exception : Val} (h : Caught a index exception b)
    (hbase : base ≤ index) : Confined base a b := by
  have hdepth := h.depth
  obtain ⟨f, target, hf, ht, hcatcher⟩ := h.catcher
  have hlt : index < a.depth := lt_depth_of_frame? hf
  refine ⟨by omega, h.programLength, alikeBelow_of_eq fun i hi => h.below i (by omega),
    fun i g hi hg => ?_⟩
  rcases Nat.lt_trichotomy i index with hlt | rfl | hgt
  · rw [h.below i hlt] at hg
    exact .inl ⟨g, hg, rfl, rfl⟩
  · obtain rfl := Option.some.inj (hcatcher.symm.trans hg)
    exact .inl ⟨f, hf, rfl, rfl⟩
  · have := lt_depth_of_frame? hg
    omega

/-- Raising an exception with the base as its floor is confined, caught or not. -/
theorem confined_raise (h : base < a.depth) (exception : Val) :
    Confined base a (a.raise exception base).2 := by
  cases hcatcher : a.catcher base with
  | none =>
      rw [raise_of_no_catcher hcatcher]
      exact Confined.refl h
  | some index =>
      obtain ⟨recovered, after, hraise, hcaught⟩ := raise_of_catcher hcatcher exception
      rw [hraise]
      exact hcaught.confined (catcher_sound hcatcher).1

/-! ### Calls -/

theorem storeAll_push (ctx : Context) (f : Frame) (slot : Nat) (values : List Val) :
    ∃ g : Frame, g.kind = f.kind ∧ g.parent = f.parent ∧
      (ctx.push f).storeAll slot values = ctx.push g := by
  induction values generalizing f slot with
  | nil => exact ⟨f, rfl, rfl, rfl⟩
  | cons value rest ih => exact ih (f.store slot value) (slot + 1)

/-- Entering a call puts its frame, the arguments stored, right above those of the caller. -/
theorem entered_eq_push {entry : Nat} {opened : Context} (h : a.pushCall entry = .ok opened)
    (args : List Val) :
    ∃ f : Frame, f.kind = .call ∧ f.parent = some a.currentIndex ∧
      opened.storeAll 0 args = a.push f := by
  rw [pushCall, checkTarget] at h
  split at h <;> simp only [Except.map, Except.ok.injEq, reduceCtorEq] at h
  obtain ⟨f, hkind, hparent, hf⟩ :=
    storeAll_push a { ip := entry, kind := .call, parent := some a.currentIndex } 0 args
  exact ⟨f, hkind, hparent, h ▸ hf⟩

/-- Entering a call leaves the frames of the caller. -/
theorem alikeBelow_pushCall {entry : Nat} {opened : Context} (h : a.pushCall entry = .ok opened)
    (args : List Val) : AlikeBelow a.depth a (opened.storeAll 0 args) := by
  obtain ⟨f, -, -, hpush⟩ := entered_eq_push h args
  refine alikeBelow_of_eq fun i hi => ?_
  rw [hpush, frame?_push, if_neg (Nat.ne_of_lt hi)]

theorem Linked.push (h : a.Linked) {f : Frame} (hparent : f.parent = some a.currentIndex) :
    (a.push f).Linked := by
  have hindex : a.currentIndex + 1 = a.depth := rfl
  constructor
  · intro g hg
    rw [frame?_push, if_neg (by omega)] at hg
    exact h.root g hg
  · intro i g hg
    rw [frame?_push] at hg
    split at hg
    · obtain rfl := Option.some.inj hg
      rw [hparent]
      congr 1
      omega
    · exact h.child i g hg

theorem Linked.truncate (h : a.Linked) (depth : Nat) : (a.truncate depth).2.Linked := by
  constructor
  · intro f hf
    rw [frame?_truncate] at hf
    split at hf
    · exact h.root f hf
    · cases hf
  · intro i f hf
    rw [frame?_truncate] at hf
    split at hf
    · exact h.child i f hf
    · cases hf

/-- Releasing frames above the base leaves a confined change confined. -/
theorem Confined.truncate {depth : Nat} (h : Confined base a b) (hbase : base < depth) :
    Confined base a (b.truncate depth).2 := by
  have hdepth := h.base_lt
  have hmax : max depth 1 = depth := Nat.max_eq_left (Nat.succ_le_of_lt (by omega))
  refine ⟨by rw [depth_truncate]; omega, ?_, ?_, fun i g hi hg => ?_⟩
  · rw [programLength_truncate, h.programLength]
  · exact h.below.trans (alikeBelow_of_eq fun i hi =>
      frame?_truncate_of_lt (Nat.lt_trans hi hbase))
  · rw [frame?_truncate, hmax] at hg
    split at hg
    · exact h.above i g hi hg
    · cases hg

end Context

end TaggedBytecode
