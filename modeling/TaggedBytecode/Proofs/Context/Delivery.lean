import TaggedBytecode.Proofs.Context.Histories

/-!
# Where Exceptions are Delivered

The search for a catcher climbs along the links, while the frames above the catcher are released
by their index. After every history of a fresh context the two orders are the same one, so an
exception goes to the **eligible** frame with the greatest index, and nothing happens to the
frames but that those above it are handed back and that it resumes.

## Main definitions

* `Context.Eligible` — the frames that may catch with a given floor.

## Main results

* `Context.raise_eq_ok` — the frames before and after an exception was caught.
* `Context.raise_delivers_to_nearest` — which frame catches, and that raising does nothing else.
-/

namespace TaggedBytecode.Context

variable {ctx after : Context}

/-! ### Releasing frames -/

theorem length_frames (ctx : Context) : ctx.frames.length = ctx.depth := by
  simp [frames, depth]

/-- Frames are released from the end of the list of frames. -/
theorem frames_truncate (ctx : Context) {d : Nat} (hd : 0 < d) :
    (ctx.truncate d).2.frames = ctx.frames.take d := by
  refine List.ext_getElem? fun i => ?_
  have hmax : max d 1 = d := Nat.max_eq_left hd
  rw [getElem?_frames, frame?_truncate, hmax, List.getElem?_take, getElem?_frames]

/-- What is released comes back in order and unchanged. -/
theorem truncate_fst (ctx : Context) {d : Nat} (hd : 0 < d) :
    (ctx.truncate d).1 = ctx.frames.drop d := by
  have hmax : max d 1 = d := Nat.max_eq_left hd
  rw [truncate]
  split
  · rename_i h
    have hle : d ≤ ctx.outer.toList.length := by
      rw [hmax, depth] at h
      rw [Array.length_toList]
      exact Nat.le_of_lt_succ h
    simp only [hmax, frames, List.drop_append_of_le_length hle, Array.toList_extract]
    simp
  · rename_i h
    have hle : ctx.frames.length ≤ d := by
      rw [length_frames]
      exact Nat.le_of_not_lt (hmax ▸ h)
    exact (List.drop_eq_nil_of_le hle).symm

/-- The current frame is the last. -/
theorem frames_withCurrent (ctx : Context) {f : Frame} :
    ({ ctx with current := f } : Context).frames = ctx.frames.take ctx.currentIndex ++ [f] := by
  simp [frames, currentIndex]

/-! ### Deliveries -/

/-- **The frames before and after an exception was caught.** The catcher is the last frame that
stays; the frames below are as they were, and those above are handed back. -/
theorem raise_eq_ok {exception : Val} {floor : Nat} {recovered : Recovered}
    (h : ctx.raise exception floor = (.ok recovered, after)) :
    ctx.catcher floor = some recovered.frame ∧
      recovered.released = ctx.frames.drop (recovered.frame + 1) ∧
      after.programLength = ctx.programLength ∧ after.currentIndex = recovered.frame ∧
      ∃ f, ctx.frames[recovered.frame]? = some f ∧ f.handler = some recovered.target ∧
        after.current = { f with pending := some exception, ip := recovered.target } ∧
        after.frames = ctx.frames.take recovered.frame ++ [after.current] := by
  cases hcatcher : ctx.catcher floor with
  | none =>
      rw [raise_of_no_catcher hcatcher] at h
      cases h
  | some index =>
      obtain ⟨-, f, hf, harmed⟩ := catcher_sound hcatcher
      obtain ⟨target, htarget⟩ := Option.isSome_iff_exists.mp harmed
      have hindex := currentIndex_truncate (lt_depth_of_frame? hf)
      have hbelow : (ctx.truncate (index + 1)).2.frames.take index = ctx.frames.take index := by
        rw [ctx.frames_truncate index.succ_pos, List.take_take, Nat.min_eq_left index.le_succ]
      rw [raise_eq hcatcher hf htarget] at h
      obtain ⟨hrecovered, rfl⟩ := Prod.mk.inj h
      obtain rfl := Except.ok.inj hrecovered
      refine ⟨rfl, ctx.truncate_fst index.succ_pos, ctx.programLength_truncate (index + 1), hindex,
        f, (getElem?_frames ctx index).trans hf, htarget, rfl, ?_⟩
      rw [frames_withCurrent, hindex, hbelow]

/-- A frame that may catch: it is armed, and lies between the floor and the current frame. -/
def Eligible (ctx : Context) (floor index : Nat) : Prop :=
  floor ≤ index ∧ index ≤ ctx.currentIndex ∧
    ∃ f, ctx.frames[index]? = some f ∧ f.handler.isSome = true

theorem eligible_iff {floor index : Nat} :
    ctx.Eligible floor index ↔
      floor ≤ index ∧ ∃ f, ctx.frame? index = some f ∧ f.isArmed = true := by
  simp only [Eligible, getElem?_frames]
  constructor
  · rintro ⟨hfloor, -, f, hf, harmed⟩
    exact ⟨hfloor, f, hf, harmed⟩
  · rintro ⟨hfloor, f, hf, harmed⟩
    exact ⟨hfloor, Nat.le_of_lt_succ (lt_depth_of_frame? hf), f, hf, harmed⟩

/-- In a linked context the frame that catches is the uppermost eligible one. -/
theorem Linked.isGreatest_of_catcher (h : ctx.Linked) {floor index : Nat}
    (hcatcher : ctx.catcher floor = some index) :
    IsGreatest {i | ctx.Eligible floor i} index := by
  simp only [eligible_iff]
  exact h.catcher_eq_some_iff.mp hcatcher

/-- In a linked context there is no catcher only if no frame is eligible. -/
theorem Linked.catcher_eq_none_iff_not_eligible (h : ctx.Linked) {floor : Nat} :
    ctx.catcher floor = none ↔ ¬∃ i, ctx.Eligible floor i := by
  simp only [h.catcher_eq_none_iff, eligible_iff]
  constructor
  · rintro hnone ⟨i, hfloor, f, hf, harmed⟩
    rw [hnone i f hf hfloor] at harmed
    cases harmed
  · intro hnone i f hf hfloor
    by_contra harmed
    exact hnone ⟨i, hfloor, f, hf, Bool.eq_true_of_not_eq_false harmed⟩

/-- **An exception goes to the nearest eligible frame, and raising changes nothing else.** After
every history of a fresh context, raising succeeds just if some frame is eligible. Then the
uppermost eligible frame catches: the frames above it are handed back unchanged and in order,
those below it stay as they are, and it becomes the current frame, with the exception pending and
at its own target. Otherwise the exception comes back and the context is as it was. -/
theorem raise_delivers_to_nearest (programLength entry : Nat) (history : List Operation)
    {ctx : Context} (hctx : (start programLength entry).performAll history = ctx)
    (exception : Val) (floor : Nat) :
    ((∃ recovered after, ctx.raise exception floor = (.ok recovered, after)) ↔
      ∃ i, ctx.Eligible floor i) ∧
    (∀ recovered after, ctx.raise exception floor = (.ok recovered, after) →
      IsGreatest {i | ctx.Eligible floor i} recovered.frame ∧
      recovered.released = ctx.frames.drop (recovered.frame + 1) ∧
      after.programLength = ctx.programLength ∧ after.currentIndex = recovered.frame ∧
      ∃ f, ctx.frames[recovered.frame]? = some f ∧ f.handler = some recovered.target ∧
        after.current = { f with pending := some exception, ip := recovered.target } ∧
        after.frames = ctx.frames.take recovered.frame ++ [after.current]) ∧
    ((¬∃ i, ctx.Eligible floor i) → ctx.raise exception floor = (.error exception, ctx)) := by
  have hlinked : ctx.Linked :=
    (hctx ▸ (wellFormed_start programLength entry).performAll history :
      ctx.WellFormed programLength).linked
  have hnone : ctx.catcher floor = none ↔ ¬∃ i, ctx.Eligible floor i :=
    hlinked.catcher_eq_none_iff_not_eligible
  refine ⟨⟨?_, fun heligible => ?_⟩, fun recovered after h => ?_, fun hnot => ?_⟩
  · rintro ⟨recovered, after, h⟩
    obtain ⟨hcatcher, -⟩ := raise_eq_ok h
    exact ⟨_, (hlinked.isGreatest_of_catcher hcatcher).1⟩
  · cases hcatcher : ctx.catcher floor with
    | none => exact absurd heligible (hnone.mp hcatcher)
    | some index =>
        obtain ⟨recovered, after, hraise, -⟩ := raise_of_catcher hcatcher exception
        exact ⟨recovered, after, hraise⟩
  · obtain ⟨hcatcher, hrest⟩ := raise_eq_ok h
    exact ⟨hlinked.isGreatest_of_catcher hcatcher, hrest⟩
  · exact raise_of_no_catcher (hnone.mpr hnot) exception

/-- Two armed scopes, an armed call and a scope that is not armed. -/
def armedBelowTop : List Operation :=
  [.pushScope (some 4), .pushScope (some 3), .pushCall 2, .setHandler 1, .pushScope none]

theorem raise_delivers_to_nearest_armedBelowTop :
    ∃ ctx, (start 5).performAll armedBelowTop = ctx ∧
      (∃ recovered after, ctx.raise (.int 9) 2 = (.ok recovered, after) ∧
        recovered.frame = 3 ∧ recovered.target = 1 ∧ recovered.released.length = 1 ∧
        IsGreatest {i | ctx.Eligible 2 i} recovered.frame ∧
        recovered.released = ctx.frames.drop (recovered.frame + 1)) ∧
      ctx.raise (.int 9) 4 = (.error (.int 9), ctx) := by
  obtain ⟨-, hcaught, -⟩ := raise_delivers_to_nearest 5 0 armedBelowTop rfl (.int 9) 2
  obtain ⟨hgreatest, hreleased, -⟩ := hcaught _ _ rfl
  obtain ⟨-, -, hback⟩ := raise_delivers_to_nearest 5 0 armedBelowTop rfl (.int 9) 4
  refine ⟨_, rfl, ⟨_, _, rfl, rfl, rfl, rfl, hgreatest, hreleased⟩, hback ?_⟩
  rintro ⟨i, hfloor, hi, f, hf, harmed⟩
  obtain rfl : i = 4 := Nat.le_antisymm hi hfloor
  obtain rfl := Option.some.inj hf
  cases harmed

end TaggedBytecode.Context
