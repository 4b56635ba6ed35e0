import Mathlib
import TaggedBytecode.Context.Raise

/-!
# The Frames of a Context

A context keeps its current frame apart from the frames below it. Everything that is proved
about contexts looks at them through one view, `Context.frame?`, which numbers the frames from
the root on. Each operation on contexts is described here by what it does to that view, and
two contexts with the same view are equal (`Context.ext_frame?`).

A context is **linked** if every frame links to the frame right below it. In a linked context
the search along the links is a search down the stack: it finds the greatest index that is
wanted.

## Main results

* `Context.frame?_push`, `Context.pop_eq_some`, `Context.frame?_truncate` — the stack.
* `Context.Linked.nearest_eq_some_iff` — the nearest frame of a linked context has the
  greatest index.
* `Context.raise_of_catcher` — what the delivery of an exception does to the frames.
-/

namespace TaggedBytecode

namespace Context

variable {ctx : Context} {wanted : Nat → Frame → Bool}

/-! ### The view -/

theorem frame?_currentIndex (ctx : Context) : ctx.frame? ctx.currentIndex = some ctx.current :=
  if_pos rfl

theorem currentIndex_lt_depth (ctx : Context) : ctx.currentIndex < ctx.depth :=
  Nat.lt_succ_self _

theorem frame?_of_lt {i : Nat} (h : i < ctx.currentIndex) : ctx.frame? i = ctx.outer[i]? :=
  if_neg (Nat.ne_of_lt h)

theorem frame?_eq_none_iff {i : Nat} : ctx.frame? i = none ↔ ctx.depth ≤ i := by
  rw [frame?, depth]
  split
  · rename_i h
    simp [h]
  · simp only [Array.getElem?_eq_none_iff]
    omega

theorem lt_depth_of_frame? {i : Nat} {f : Frame} (h : ctx.frame? i = some f) : i < ctx.depth := by
  by_contra hge
  rw [frame?_eq_none_iff.mpr (Nat.le_of_not_lt hge)] at h
  cases h

theorem exists_frame?_of_lt {i : Nat} (h : i < ctx.depth) : ∃ f, ctx.frame? i = some f := by
  cases hf : ctx.frame? i with
  | none => exact absurd (frame?_eq_none_iff.mp hf) (Nat.not_le_of_lt h)
  | some f => exact ⟨f, rfl⟩

/-- Two contexts with the same frames, for programs of the same length, are equal. -/
theorem ext_frame? {a b : Context} (hlen : a.programLength = b.programLength)
    (h : ∀ i, a.frame? i = b.frame? i) : a = b := by
  have hdepth : a.depth = b.depth := by
    apply Nat.le_antisymm
    · exact frame?_eq_none_iff.mp ((h _).trans (frame?_eq_none_iff.mpr (Nat.le_refl _)))
    · exact frame?_eq_none_iff.mp ((h _).symm.trans (frame?_eq_none_iff.mpr (Nat.le_refl _)))
  have hindex : a.currentIndex = b.currentIndex := Nat.succ.inj hdepth
  have hcurrent : a.current = b.current := by
    have hf := h a.currentIndex
    rw [frame?_currentIndex, hindex, frame?_currentIndex] at hf
    exact Option.some.inj hf
  have houter : a.outer = b.outer := by
    refine Array.ext_getElem? fun i => ?_
    by_cases hi : i < a.currentIndex
    · rw [← frame?_of_lt hi, ← frame?_of_lt (hindex ▸ hi)]
      exact h i
    · have hb : ¬i < b.currentIndex := hindex ▸ hi
      rw [Array.getElem?_eq_none (Nat.le_of_not_lt hi),
        Array.getElem?_eq_none (Nat.le_of_not_lt hb)]
  obtain ⟨aOuter, aCurrent, aLength⟩ := a
  obtain ⟨bOuter, bCurrent, bLength⟩ := b
  simp_all

/-! ### Changes of one frame -/

/-- Replacing the current frame touches no other. -/
theorem frame?_withCurrent (ctx : Context) (f : Frame) (i : Nat) :
    ({ ctx with current := f } : Context).frame? i =
      if i = ctx.currentIndex then some f else ctx.frame? i := by
  simp only [frame?, currentIndex]
  split <;> rfl

theorem frame?_modifyFrame (ctx : Context) (index : Nat) (g : Frame → Frame) (i : Nat) :
    (ctx.modifyFrame index g).frame? i =
      if i = index then (ctx.frame? i).map g else ctx.frame? i := by
  simp only [modifyFrame, frame?]
  by_cases hindex : index = ctx.outer.size
  · subst hindex
    by_cases hi : i = ctx.outer.size <;> simp [hi]
  · simp only [hindex, if_false, Array.size_modify, Array.getElem?_modify]
    by_cases hi : i = ctx.outer.size
    · have hne : i ≠ index := fun h => hindex (h.symm.trans hi)
      simp only [hi, if_true]
      rw [if_neg (fun h => hindex h.symm)]
    · simp only [hi, if_false, eq_comm]

theorem depth_modifyFrame (ctx : Context) (index : Nat) (g : Frame → Frame) :
    (ctx.modifyFrame index g).depth = ctx.depth := by
  simp only [modifyFrame, depth]
  split <;> simp

theorem programLength_modifyFrame (ctx : Context) (index : Nat) (g : Frame → Frame) :
    (ctx.modifyFrame index g).programLength = ctx.programLength := by
  rw [modifyFrame]
  split <;> rfl

/-! ### The stack -/

theorem depth_push (ctx : Context) (f : Frame) : (ctx.push f).depth = ctx.depth + 1 := by
  simp [push, depth]

theorem frame?_push (ctx : Context) (f : Frame) (i : Nat) :
    (ctx.push f).frame? i = if i = ctx.depth then some f else ctx.frame? i := by
  rw [frame?, frame?, push, depth]
  simp only [Array.size_push, Array.getElem?_push]

/-- What a successful pop releases and leaves. Only the new current frame can change, and
only its instruction pointer. -/
theorem pop_eq_some {released : Frame} {after : Context} (h : ctx.pop = some (released, after)) :
    ctx.depth = after.depth + 1 ∧ after.programLength = ctx.programLength ∧
      (∀ i < after.currentIndex, after.frame? i = ctx.frame? i) ∧
      ∃ below, ctx.frame? after.currentIndex = some below ∧
        ∃ ip, after.current = { below with ip } := by
  rw [pop] at h
  cases hback : ctx.outer.back? with
  | none => simp [hback] at h
  | some below =>
    simp only [hback, Option.some.injEq, Prod.mk.injEq] at h
    obtain ⟨-, rfl⟩ := h
    have hlast : ctx.outer[ctx.outer.size - 1]? = some below := by
      rw [← hback, Array.back?_eq_getElem?]
    have hpos : 0 < ctx.outer.size := by
      by_contra hzero
      rw [Array.getElem?_eq_none (by omega)] at hlast
      cases hlast
    refine ⟨?_, rfl, ?_, below, ?_, _, rfl⟩
    · simp only [depth, Array.size_pop]
      omega
    · intro i hi
      simp only [currentIndex, Array.size_pop] at hi
      simp only [frame?, Array.size_pop, Array.getElem?_pop]
      grind
    · simp only [currentIndex, Array.size_pop, frame?]
      rw [if_neg (by omega)]
      exact hlast

theorem depth_truncate (ctx : Context) (d : Nat) :
    (ctx.truncate d).2.depth = min ctx.depth (max d 1) := by
  rw [truncate]
  split
  · rename_i h
    simp only [depth, Array.size_extract] at h ⊢
    omega
  · rename_i h
    simp only [depth] at h ⊢
    omega

theorem programLength_truncate (ctx : Context) (d : Nat) :
    (ctx.truncate d).2.programLength = ctx.programLength := by
  rw [truncate]
  split <;> rfl

/-- Releasing frames touches none of the others. The root stays in any case. -/
theorem frame?_truncate (ctx : Context) (d i : Nat) :
    (ctx.truncate d).2.frame? i = if i < max d 1 then ctx.frame? i else none := by
  rw [truncate]
  split
  · rename_i h
    have hsize : max d 1 - 1 < ctx.outer.size := by
      simp only [depth] at h
      omega
    simp only [frame?, Array.size_extract, Array.getElem?_extract]
    grind
  · rename_i h
    simp only
    split
    · rfl
    · exact frame?_eq_none_iff.mpr (by omega)

/-- Releasing the frames above a depth touches none below it. -/
theorem frame?_truncate_of_lt {d i : Nat} (h : i < d) :
    (ctx.truncate d).2.frame? i = ctx.frame? i := by
  rw [frame?_truncate, if_pos (Nat.lt_of_lt_of_le h (Nat.le_max_left _ _))]

/-- Releasing the frames above a frame makes it the current one. -/
theorem currentIndex_truncate {index : Nat} (h : index < ctx.depth) :
    (ctx.truncate (index + 1)).2.currentIndex = index := by
  have hdepth := depth_truncate ctx (index + 1)
  rw [Nat.succ_max_succ, Nat.max_eq_left (Nat.zero_le _), Nat.min_eq_right h] at hdepth
  exact Nat.succ.inj hdepth

theorem current_truncate {index : Nat} {f : Frame} (hf : ctx.frame? index = some f) :
    (ctx.truncate (index + 1)).2.current = f := by
  have hindex := currentIndex_truncate (lt_depth_of_frame? hf)
  have htop := (ctx.truncate (index + 1)).2.frame?_currentIndex
  rw [hindex, frame?_truncate_of_lt (Nat.lt_succ_self _), hf] at htop
  exact (Option.some.inj htop).symm

/-! ### Links -/

/-- Every frame links to the frame right below it, and the root to none. -/
structure Linked (ctx : Context) : Prop where
  root : ∀ f, ctx.frame? 0 = some f → f.parent = none
  child : ∀ i f, ctx.frame? (i + 1) = some f → f.parent = some i

/-- A search only finds frames that are wanted. -/
theorem search_sound {fuel start index : Nat} (h : ctx.search wanted fuel start = some index) :
    ∃ f, ctx.frame? index = some f ∧ wanted index f = true := by
  induction fuel generalizing start with
  | zero => simp [search] at h
  | succ fuel ih =>
      rw [search] at h
      cases hf : ctx.frame? start with
      | none => simp [hf] at h
      | some f =>
          simp only [hf] at h
          by_cases hw : wanted start f = true
          · rw [if_pos hw, Option.some.injEq] at h
            exact ⟨f, h ▸ hf, h ▸ hw⟩
          · rw [if_neg hw] at h
            cases hp : f.parent with
            | none => simp [hp] at h
            | some parent => exact ih (by simpa [hp] using h)

theorem nearest_sound {index : Nat} (h : ctx.nearest wanted = some index) :
    ∃ f, ctx.frame? index = some f ∧ wanted index f = true :=
  search_sound h

/-- The search from a frame of a linked context visits every frame below it. Induction on the
frame it starts from. -/
theorem Linked.search_eq_none_iff (h : ctx.Linked) {fuel start : Nat} (hfuel : start < fuel)
    (hstart : start < ctx.depth) :
    ctx.search wanted fuel start = none ↔
      ∀ i ≤ start, ∀ f, ctx.frame? i = some f → wanted i f = false := by
  induction start generalizing fuel with
  | zero =>
      obtain ⟨fuel, rfl⟩ : ∃ k, fuel = k + 1 := ⟨fuel - 1, by omega⟩
      obtain ⟨f, hf⟩ := exists_frame?_of_lt hstart
      simp [search, hf, h.root f hf]
  | succ start ih =>
      obtain ⟨fuel, rfl⟩ : ∃ k, fuel = k + 1 := ⟨fuel - 1, by omega⟩
      obtain ⟨f, hf⟩ := exists_frame?_of_lt hstart
      rw [search]
      simp only [hf, h.child start f hf]
      by_cases hw : wanted (start + 1) f = true
      · simp only [hw, if_true, reduceCtorEq, false_iff]
        intro hall
        simp [hall _ (Nat.le_refl _) f hf] at hw
      · rw [if_neg hw, ih (by omega) (by omega)]
        constructor
        · intro hall i hi g hg
          rcases Nat.lt_or_eq_of_le hi with hlt | rfl
          · exact hall i (by omega) g hg
          · obtain rfl : f = g := Option.some.inj (hf.symm.trans hg)
            simpa using hw
        · intro hall i hi
          exact hall i (by omega)

/-- Nothing above the frame that a search finds was wanted. -/
theorem Linked.search_greatest (h : ctx.Linked) {fuel start index : Nat} (hfuel : start < fuel)
    (hstart : start < ctx.depth) (hfound : ctx.search wanted fuel start = some index) :
    index ≤ start ∧
      ∀ i ≤ start, ∀ f, ctx.frame? i = some f → wanted i f = true → i ≤ index := by
  induction start generalizing fuel with
  | zero =>
      obtain ⟨fuel, rfl⟩ : ∃ k, fuel = k + 1 := ⟨fuel - 1, by omega⟩
      obtain ⟨f, hf⟩ := exists_frame?_of_lt hstart
      simp only [search, hf, h.root f hf] at hfound
      split at hfound
      · simp_all
      · cases hfound
  | succ start ih =>
      obtain ⟨fuel, rfl⟩ : ∃ k, fuel = k + 1 := ⟨fuel - 1, by omega⟩
      obtain ⟨f, hf⟩ := exists_frame?_of_lt hstart
      rw [search] at hfound
      simp only [hf, h.child start f hf] at hfound
      by_cases hw : wanted (start + 1) f = true
      · rw [if_pos hw, Option.some.injEq] at hfound
        subst hfound
        exact ⟨Nat.le_refl _, fun i hi _ _ _ => hi⟩
      · rw [if_neg hw] at hfound
        obtain ⟨hle, hall⟩ := ih (by omega) (by omega) hfound
        refine ⟨by omega, fun i hi g hg hwanted => ?_⟩
        rcases Nat.lt_or_eq_of_le hi with hlt | rfl
        · exact hall i (by omega) g hg hwanted
        · obtain rfl : f = g := Option.some.inj (hf.symm.trans hg)
          exact absurd hwanted hw

/-- **Searching along the links is searching down the stack**: the nearest wanted frame of a
linked context is the one with the greatest index. -/
theorem Linked.nearest_eq_some_iff (h : ctx.Linked) {index : Nat} :
    ctx.nearest wanted = some index ↔
      IsGreatest {i | ∃ f, ctx.frame? i = some f ∧ wanted i f = true} index := by
  have hstart := ctx.currentIndex_lt_depth
  have upper : ∀ k, ctx.nearest wanted = some k →
      IsGreatest {i | ∃ f, ctx.frame? i = some f ∧ wanted i f = true} k := by
    intro k hk
    refine ⟨nearest_sound hk, ?_⟩
    rintro i ⟨f, hf, hw⟩
    exact (h.search_greatest hstart hstart hk).2 i
      (Nat.le_of_lt_succ (lt_depth_of_frame? hf)) f hf hw
  refine ⟨upper index, fun hgreatest => ?_⟩
  cases hk : ctx.nearest wanted with
  | none =>
      obtain ⟨f, hf, hw⟩ := hgreatest.1
      have hnone := (h.search_eq_none_iff hstart hstart).mp hk index
        (Nat.le_of_lt_succ (lt_depth_of_frame? hf)) f hf
      simp [hnone] at hw
  | some k => rw [(upper k hk).unique hgreatest]

theorem Linked.nearest_eq_none_iff (h : ctx.Linked) :
    ctx.nearest wanted = none ↔ ∀ i f, ctx.frame? i = some f → wanted i f = false := by
  have hstart := ctx.currentIndex_lt_depth
  refine (h.search_eq_none_iff hstart hstart).trans ⟨fun hall i f hf => ?_, fun hall i _ => hall i⟩
  exact hall i (Nat.le_of_lt_succ (lt_depth_of_frame? hf)) f hf

theorem linked_start (programLength entry : Nat) : (start programLength entry).Linked := by
  constructor
  · intro f hf
    simp only [frame?, start, List.size_toArray, List.length_nil, if_true, Option.some.injEq] at hf
    rw [← hf]
  · intro i f hf
    have := lt_depth_of_frame? hf
    simp [start, depth] at this

/-! ### Exceptions -/

/-- The frames after an exception was caught: those below the catcher are untouched, the
catcher holds the exception and resumes at its target, and there is none above it. -/
structure Caught (ctx : Context) (index : Nat) (exception : Val) (after : Context) : Prop where
  depth : after.depth = index + 1
  programLength : after.programLength = ctx.programLength
  below : ∀ i < index, after.frame? i = ctx.frame? i
  catcher : ∃ f target, ctx.frame? index = some f ∧ f.handler = some target ∧
    after.frame? index = some { f with pending := some exception, ip := target }

/-- The frames after a catch are determined by the catcher. -/
theorem Caught.unique {a b c d : Context} {index : Nat} {exception : Val}
    (hac : Caught a index exception c) (hbd : Caught b index exception d)
    (hlen : a.programLength = b.programLength) (h : ∀ i ≤ index, a.frame? i = b.frame? i) :
    c = d := by
  refine ext_frame? (by rw [hac.programLength, hbd.programLength, hlen]) fun i => ?_
  rcases Nat.lt_trichotomy i index with hlt | rfl | hgt
  · rw [hac.below i hlt, hbd.below i hlt, h i (Nat.le_of_lt hlt)]
  · obtain ⟨f, target, hf, ht, hc⟩ := hac.catcher
    obtain ⟨g, target', hg, ht', hd⟩ := hbd.catcher
    obtain rfl : f = g := Option.some.inj (hf.symm.trans ((h i (Nat.le_refl _)).trans hg))
    obtain rfl : target = target' := Option.some.inj (ht.symm.trans ht')
    rw [hc, hd]
  · rw [frame?_eq_none_iff.mpr (by rw [hac.depth]; omega),
      frame?_eq_none_iff.mpr (by rw [hbd.depth]; omega)]

/-- What a catcher has to be, links aside. -/
theorem catcher_sound {floor index : Nat} (h : ctx.catcher floor = some index) :
    floor ≤ index ∧ ∃ f, ctx.frame? index = some f ∧ f.isArmed = true := by
  obtain ⟨f, hf, hw⟩ := nearest_sound h
  simp only [Bool.and_eq_true, decide_eq_true_eq] at hw
  exact ⟨hw.1, f, hf, hw.2⟩

/-- An exception that no frame catches comes back, and the context stays as it is. -/
theorem raise_of_no_catcher {floor : Nat} (h : ctx.catcher floor = none) (exception : Val) :
    ctx.raise exception floor = (.error exception, ctx) := by
  simp [raise, h]

/-- What raising gives if there is a catcher. -/
theorem raise_eq {floor index target : Nat} {f : Frame} (h : ctx.catcher floor = some index)
    (hf : ctx.frame? index = some f) (ht : f.handler = some target) (exception : Val) :
    ctx.raise exception floor =
      (.ok ⟨index, target, (ctx.truncate (index + 1)).1⟩,
        { (ctx.truncate (index + 1)).2 with
          current := { f with pending := some exception, ip := target } }) := by
  have hcurrent := current_truncate hf
  simp only [raise, h]
  generalize ctx.truncate (index + 1) = cut at hcurrent ⊢
  obtain ⟨released, unwound⟩ := cut
  simp only at hcurrent
  simp only [hcurrent, ht]

/-- An exception that has a catcher is delivered to it. -/
theorem raise_of_catcher {floor index : Nat} (h : ctx.catcher floor = some index)
    (exception : Val) :
    ∃ recovered after, ctx.raise exception floor = (.ok recovered, after) ∧
      Caught ctx index exception after := by
  obtain ⟨-, f, hf, harmed⟩ := catcher_sound h
  obtain ⟨target, ht⟩ := Option.isSome_iff_exists.mp harmed
  have hindex := currentIndex_truncate (lt_depth_of_frame? hf)
  refine ⟨_, _, raise_eq h hf ht exception, congrArg Nat.succ hindex,
    programLength_truncate ctx (index + 1), fun i hi => ?_, f, target, hf, ht, ?_⟩
  · rw [frame?_withCurrent, hindex, if_neg (Nat.ne_of_lt hi),
      frame?_truncate_of_lt (Nat.lt_succ_of_lt hi)]
  · rw [frame?_withCurrent, hindex, if_pos rfl]

/-- In a linked context an exception has no catcher if no frame from the floor on is armed. -/
theorem Linked.catcher_eq_none_iff (h : ctx.Linked) {floor : Nat} :
    ctx.catcher floor = none ↔
      ∀ i f, ctx.frame? i = some f → floor ≤ i → f.isArmed = false := by
  simp [catcher, h.nearest_eq_none_iff]

/-- In a linked context the topmost armed frame from the floor on is the catcher. -/
theorem Linked.catcher_eq_some_iff (h : ctx.Linked) {floor index : Nat} :
    ctx.catcher floor = some index ↔
      IsGreatest {i | floor ≤ i ∧ ∃ f, ctx.frame? i = some f ∧ f.isArmed = true} index := by
  have hset : {i | ∃ f, ctx.frame? i = some f ∧ (decide (floor ≤ i) && f.isArmed) = true} =
      {i | floor ≤ i ∧ ∃ f, ctx.frame? i = some f ∧ f.isArmed = true} := by
    ext i
    simp only [Bool.and_eq_true, decide_eq_true_eq, Set.mem_ofPred_eq]
    grind
  rw [catcher, h.nearest_eq_some_iff, hset]

end Context

end TaggedBytecode
