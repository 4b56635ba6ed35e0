import Mathlib.Data.List.Sort
import TaggedBytecode.Proofs.Machine.Nesting

/-!
# The Frame Stack of a Run

The frames of a run are **layered**. The root is at the bottom, every open call has one call
frame, at its base, and all other frames are scopes. So the frames tell which calls are open,
as the suspended instructions do, and as the count of open calls does.

The layers begin with the fresh context of a run. A host that prepares frames of its own
before the first fetch may break them.

## Main definitions

* `MachineState.bases` — the bases of the open calls.
* `Context.callIndices` — the indices of the call frames.
* `MachineState.Layered` — every frame has the kind that the suspended instructions ask for.

## Main results

* `Machine.Reaches.layered` — the frames of a run are layered.
* `Machine.call_frames_are_open_calls` — call frames, open calls and their count agree.
-/

namespace TaggedBytecode

open Relation (ReflTransGen)

/-! ### Bases -/

/-- The bases of the open calls, the outermost first. -/
def MachineState.bases (state : MachineState) : List Nat :=
  (state.suspended.map (·.base)).reverse

theorem Stacked.base_le {limit : Nat} {stack : List Suspension} (h : Stacked limit stack) :
    ∀ base ∈ stack.map (·.base), base ≤ callBase stack := by
  induction h with
  | nil => exact nofun
  | @cons s stack hs _ ih =>
      intro base hbase
      rcases List.mem_cons.mp hbase with rfl | htail
      · exact Nat.le_refl _
      · exact Nat.le_trans (ih base htail) (Nat.le_of_lt hs.base_lt)

theorem Stacked.base_pos {limit : Nat} {stack : List Suspension} (h : Stacked limit stack) :
    ∀ base ∈ stack.map (·.base), 0 < base := by
  induction h with
  | nil => exact nofun
  | @cons s stack hs _ ih =>
      intro base hbase
      rcases List.mem_cons.mp hbase with rfl | htail
      · exact Nat.lt_of_le_of_lt (Nat.zero_le _) hs.base_lt
      · exact ih base htail

/-- The bases of open calls ascend strictly from the outermost call inwards. -/
theorem Stacked.pairwise_bases {limit : Nat} {stack : List Suspension} (h : Stacked limit stack) :
    (stack.map (·.base)).reverse.Pairwise (· < ·) := by
  rw [List.pairwise_reverse]
  induction h with
  | nil => exact .nil
  | @cons s stack hs hstack ih =>
      refine .cons (fun base hbase => ?_) ih
      exact Nat.lt_of_le_of_lt (hstack.base_le base hbase) hs.base_lt

/-! ### Layers -/

/-- The kind that the frame at an index has, given the suspended instructions. -/
def layer (stack : List Suspension) (index : Nat) : FrameKind :=
  if index = 0 then .root else if index ∈ stack.map (·.base) then .call else .scope

theorem layer_cons_of_ne {s : Suspension} {stack : List Suspension} {index : Nat}
    (h : index ≠ s.base) : layer (s :: stack) index = layer stack index := by
  simp [layer, h]

/-- Above the base of the innermost call there are scopes. -/
theorem Stacked.layer_eq_scope {limit : Nat} {stack : List Suspension} (h : Stacked limit stack)
    {index : Nat} (hindex : callBase stack < index) : layer stack index = .scope := by
  have hmem : index ∉ stack.map (·.base) := by
    intro hmem
    exact absurd (h.base_le index hmem) (Nat.not_le_of_lt hindex)
  rw [layer, if_neg (by omega), if_neg hmem]

/-- Every frame has the kind that the suspended instructions ask for. -/
def MachineState.Layered (state : MachineState) : Prop :=
  ∀ i f, state.exec.context.frame? i = some f → f.kind = layer state.suspended i

/-- Layers survive a change that is confined to the innermost call. -/
theorem Context.Confined.layered {limit : Nat} {stack : List Suspension} {a b : Context}
    (hstack : Stacked limit stack) (h : a.Confined (callBase stack) b)
    (ha : ∀ i f, a.frame? i = some f → f.kind = layer stack i) :
    ∀ i g, b.frame? i = some g → g.kind = layer stack i := by
  intro i g hg
  by_cases hi : i < callBase stack
  · obtain ⟨f, hf, halike⟩ := h.below.exists_alike_before hi hg
    exact halike.kind.trans (ha i f hf)
  · rcases h.above i g (Nat.le_of_not_lt hi) hg with ⟨f, hf, hkind, -⟩ | ⟨hlt, hkind, -⟩
    · exact hkind.trans (ha i f hf)
    · exact hkind.trans (hstack.layer_eq_scope hlt).symm

theorem MachineState.Layered.begun {limit : Nat} {state : MachineState} (h : state.Layered)
    (hn : state.Nested limit) : state.begun.Layered :=
  hn.confined_begun.layered hn.stacked h

theorem Move.layered {limit : Nat} {a b : MachineState} (h : Move a b) (hn : a.Nested limit)
    (ha : a.Layered) : b.Layered := by
  cases h with
  | work hab => exact hab.context.layered hn.stacked ha
  | @leave a s stack =>
      intro i f hf
      simp only [hn.stacked.head.context_closed, Context.frame?_truncate] at hf
      split at hf
      · rename_i hi
        have hpos := hn.stacked.head.base_lt
        rw [← layer_cons_of_ne (by omega : i ≠ s.base)]
        exact ha i f hf
      · cases hf

theorem Enter.layered {limit : Nat} {a b : MachineState} (h : Enter limit a b)
    (ha : a.Layered) : b.Layered := by
  cases h with
  | @call before s stack entry args opened hlimit hopen hbase =>
      obtain ⟨f, hkind, -, hpush⟩ := Context.entered_eq_push hopen args
      have hpos : 0 < s.base := hbase ▸ Nat.succ_pos _
      intro i g hg
      simp only [Execution.enterCall, hpush, Context.frame?_push] at hg
      split at hg
      · rename_i hi
        obtain rfl := Option.some.inj hg
        rw [← hbase] at hi
        simp [layer, hi, hkind, Nat.ne_of_gt hpos]
      · rename_i hi
        rw [layer_cons_of_ne (hbase ▸ hi)]
        exact ha i g hg

/-! ### Call frames -/

/-- The indices of the call frames of a context, in ascending order. -/
def Context.callIndices (ctx : Context) : List Nat :=
  (List.range ctx.depth).filter fun i => (ctx.frame? i).any fun f => f.kind = .call

theorem Context.mem_callIndices {ctx : Context} {i : Nat} :
    i ∈ ctx.callIndices ↔ ∃ f, ctx.frame? i = some f ∧ f.kind = .call := by
  simp only [callIndices, List.mem_filter, List.mem_range, Option.any_eq_true, decide_eq_true_eq,
    and_iff_right_iff_imp]
  rintro ⟨f, hf, -⟩
  exact lt_depth_of_frame? hf

/-- In layered frames the call frames stand at the bases of the open calls. -/
theorem MachineState.Layered.callIndices_eq {limit : Nat} {state : MachineState}
    (h : state.Layered) (hn : state.Nested limit) :
    state.exec.context.callIndices = state.bases := by
  refine List.Pairwise.eq_of_mem_iff (List.pairwise_lt_range.filter _) hn.stacked.pairwise_bases
    fun i => ?_
  rw [Context.mem_callIndices, MachineState.bases, List.mem_reverse]
  constructor
  · rintro ⟨f, hf, hkind⟩
    have hlayer := (h i f hf).symm.trans hkind
    rw [layer] at hlayer
    by_contra hmem
    rw [if_neg hmem] at hlayer
    split at hlayer <;> cases hlayer
  · intro hmem
    have hpos := hn.stacked.base_pos i hmem
    have hle := hn.stacked.base_le i hmem
    obtain ⟨f, hf⟩ := Context.exists_frame?_of_lt (Nat.lt_of_le_of_lt hle hn.base_lt)
    refine ⟨f, hf, (h i f hf).trans ?_⟩
    rw [layer, if_neg (Nat.ne_of_gt hpos), if_pos hmem]

namespace Machine

variable {m : Machine} {run : Run} {world : World} {sink : Option Sink} {state : MachineState}

/-- Frames that are layered before the first fetch are so at every fetch. -/
theorem Reaches.layered_of_first (hm : m.Standard) (hrun : run.Fresh)
    (hfirst : MachineState.Layered { exec := run.exec }) (h : m.Reaches run state) :
    state.Layered :=
  h.preserved hm hrun hfirst (fun _ hn ha => ha.begun hn)
    (fun _ _ hn ha hmove => hmove.layered hn ha) fun _ _ _ ha henter => henter.layered ha

/-- The frames of a fresh context are layered. -/
theorem layered_start (m : Machine) (world : World) (sink : Option Sink) :
    MachineState.Layered { exec := (m.start world sink).exec } := by
  intro i f hf
  have hi := Context.lt_depth_of_frame? hf
  obtain rfl : i = 0 := Nat.lt_one_iff.mp hi
  obtain rfl := Option.some.inj hf
  rfl

/-- At every fetch of a run that began with a fresh context the frames are layered. -/
theorem Reaches.layered (hm : m.Standard) (h : m.Reaches (m.start world sink) state) :
    state.Layered :=
  h.layered_of_first hm (m.fresh_start world sink) (m.layered_start world sink)

/-- **Call frames are open calls.** At every fetch the call frames stand just at the bases of
the open calls, in the same order and as many as are counted, which the limit bounds. The
innermost call has a frame, there is one root, and above the innermost base there are only
scopes. -/
theorem call_frames_are_open_calls (hm : m.Standard)
    (h : m.Reaches (m.start world sink) state) :
    state.exec.context.callIndices = state.bases ∧ state.bases.Pairwise (· < ·) ∧
      state.exec.context.callIndices.length = state.exec.calls ∧
      state.exec.calls ≤ m.maxCallDepth ∧ state.base < state.exec.context.depth ∧
      (∀ i f, state.exec.context.frame? i = some f → (f.kind = .root ↔ i = 0)) ∧
      ∀ i f, state.base < i → state.exec.context.frame? i = some f → f.kind = .scope := by
  have hlayered := h.layered hm
  have hn := h.nested hm (m.fresh_start world sink)
  have hcalls := hlayered.callIndices_eq hn
  refine ⟨hcalls, hn.stacked.pairwise_bases, ?_, hn.calls_le, ?_, fun i f hf => ?_,
    fun i f hi hf => ?_⟩
  · rw [hcalls, hn.calls, MachineState.bases, List.length_reverse, List.length_map]
  · rw [state.base_eq]
    exact hn.base_lt
  · rw [hlayered i f hf, layer]
    split
    · simp [*]
    · split <;> simp [*]
  · rw [state.base_eq] at hi
    exact (hlayered i f hf).trans (hn.stacked.layer_eq_scope hi)

/-- A call, a scope in the callee, and a call inside the scope. -/
def callInScopeInCall : Machine :=
  Reference.machine #[38, 7, 0, 32, 17, 38, 17, 0, 37]

theorem call_frames_are_open_calls_callInScopeInCall :
    ∃ state, callInScopeInCall.Reaches callInScopeInCall.start state ∧ state.bases = [1, 3] ∧
      state.exec.context.callIndices = [1, 3] ∧ state.exec.calls = 2 ∧
      state.exec.calls ≤ callInScopeInCall.maxCallDepth := by
  have hrun : ∃ state, callInScopeInCall.iterate 3 ⟨callInScopeInCall.start.exec, []⟩ =
      .running state ∧ state.bases = [1, 3] := by
    conv in callInScopeInCall.iterate _ _ => cbv
    exact ⟨_, rfl, rfl⟩
  obtain ⟨state, hn, hbases⟩ := hrun
  obtain ⟨hindices, -, hcount, hlimit, -⟩ :=
    call_frames_are_open_calls (Reference.standard_machine _) ⟨3, hn⟩
  refine ⟨state, ⟨3, hn⟩, hbases, hindices.trans hbases, ?_, hlimit⟩
  rw [← hcount, hindices, hbases]
  rfl

end Machine

end TaggedBytecode
