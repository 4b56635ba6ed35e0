import TaggedBytecode.Proofs.Machine.Calls
import TaggedBytecode.Proofs.Machine.Operands

/-!
# The Next Fetch of a Call

Between two fetches of one call lies an instruction, and if it calls, all the fetches of its
callees. An instruction **ends** with what it finishes with once its callees are left. If that
is the order to continue, the **next fetch** of its call is made in the context that it
finished in.

## Main definitions

* `Machine.Ends` — how an instruction ends, callees included.
* `Machine.NextFetch` — the next fetch of the same call.

## Main results

* `Machine.NextFetch.unique` — there is at most one.
* `Machine.Ends.yields` — the computation of an instruction yields what it ends with.
* `Machine.Ends.exists_nextFetch` — an instruction that continues has a next fetch.
-/

namespace TaggedBytecode

open Relation (ReflTransGen)

namespace Machine

/-- How an instruction above some suspended instructions **ends**, given how far it got: it
finishes, or steps of its own carry the callee that it waits for to where the callee is left,
and the instruction goes on with the reply. -/
inductive Ends (m : Machine) (i : Instruction) (stack : List Suspension)
    (reply : Except Thrown Flow) (after : Execution) : Progress Flow → Prop
  | finished : Ends m i stack reply after (.finished reply after)
  | resumed {base : Nat} {opened exec : Execution} {last : MachineState} {exit : Exit}
      {resume : Except Thrown Val → Execution → Progress Flow} {rest : List Suspension} :
      rest = ⟨i, base, resume⟩ :: stack →
      ReflTransGen (m.StepsWithin rest) ⟨opened, rest⟩ last → m.Leaves last rest exit exec →
      Ends m i stack reply after (resume exit.reply exec) →
      Ends m i stack reply after (.suspended base opened resume)

/-- A step to a fetch of a callee of the call above some suspended instructions. -/
def StepsInto (m : Machine) (stack : List Suspension) (a b : MachineState) : Prop :=
  m.step a = .running b ∧ stack.length < b.suspended.length

/-- The **next fetch** of the same call. All fetches in between are fetches of callees. -/
def NextFetch (m : Machine) (state next : MachineState) : Prop :=
  ∃ last, ReflTransGen (m.StepsInto state.suspended) state last ∧
    m.step last = .running next ∧ next.suspended = state.suspended

variable {m : Machine} {state : MachineState} {i : Instruction} {p : Progress Flow}
  {stack rest : List Suspension}

/-- A step does not both stay in a call and enter a callee of it. -/
theorem not_stepsInto {a b c : MachineState} (hb : m.step a = .running b)
    (hsuspended : b.suspended = stack) : ¬m.StepsInto stack a c := by
  rintro ⟨hc, hlonger⟩
  obtain rfl := Status.running.inj (hb.symm.trans hc)
  rw [hsuspended] at hlonger
  exact Nat.lt_irrefl _ hlonger

/-- There is at most one next fetch. Induction on the steps to one of two. -/
theorem NextFetch.unique {a b : MachineState} (ha : m.NextFetch state a)
    (hb : m.NextFetch state b) : a = b := by
  obtain ⟨lastA, hpathA, hstepA, hstackA⟩ := ha
  obtain ⟨lastB, hpathB, hstepB, hstackB⟩ := hb
  generalize state.suspended = stack at *
  induction hpathA using ReflTransGen.head_induction_on with
  | refl =>
      rcases hpathB.cases_head with rfl | ⟨c, hinto, -⟩
      · exact Status.running.inj (hstepA.symm.trans hstepB)
      · exact absurd hinto (not_stepsInto hstepA hstackA)
  | head hinto _ ih =>
      rcases hpathB.cases_head with rfl | ⟨c, hinto', hrest⟩
      · exact absurd hinto (not_stepsInto hstepB hstackB)
      · obtain rfl := Status.running.inj (hinto.1.symm.trans hinto'.1)
        exact ih hrest

/-! ### Instructions that end -/

/-- Steps within a callee are steps to fetches of callees. -/
theorem stepsInto_of_within (hm : m.Standard) {a b : MachineState}
    (ha : a.Nested m.maxCallDepth) (hrest : rest <:+ a.suspended)
    (hlength : stack.length < rest.length) (h : ReflTransGen (m.StepsWithin rest) a b) :
    ReflTransGen (m.StepsInto stack) a b := by
  induction h with
  | refl => exact .refl
  | tail hpath hstep ih =>
      obtain ⟨hnested, hsuffix, -⟩ := alikeBelow_of_within hm ha hrest hpath
      obtain ⟨hwithin, -⟩ := alikeBelow_of_stepsWithin hm hnested hsuffix hstep
      exact ih.tail ⟨hstep.1, Nat.lt_of_lt_of_le hlength hwithin.length_le⟩

/-- **The computation of an instruction yields what it ends with**, and steps to fetches of its
callees lead to where it finishes. Induction on the calls that it makes. -/
theorem Ends.yields (hm : m.Standard) (hn : state.Nested m.maxCallDepth)
    (hactive : m.Active state i p stack) {flow : Flow} {after : Execution}
    (h : m.Ends i stack (.ok flow) after p) :
    p.Yields flow after ∧ ∃ last, ReflTransGen (m.StepsInto stack) state last ∧
      m.Active last i (.finished (.ok flow) after) stack := by
  induction h generalizing state with
  | finished => exact ⟨.finished, state, .refl, hactive⟩
  | @resumed base opened exec last exit resume rest hrest hwithin hleaves _ ih =>
      subst hrest
      have hstep : m.step state = .running ⟨opened, ⟨i, base, resume⟩ :: stack⟩ := by
        rw [hactive.step_eq, turn, carry]
      have hopened := nested_of_step hm hn hstep
      obtain ⟨hlast, hsuffix, halike⟩ :=
        alikeBelow_of_within hm hopened (List.suffix_refl _) hwithin
      have hcallee : ReflTransGen (m.StepsInto stack) ⟨opened, ⟨i, base, resume⟩ :: stack⟩ last :=
        stepsInto_of_within hm hopened (List.suffix_refl _) (Nat.lt_succ_self _) hwithin
      obtain ⟨j, q, hj, hturn⟩ := id hleaves
      obtain ⟨hyields, final, hpath, hfinal⟩ := ih hlast (hj.resumed hturn)
      refine ⟨.resumed (fun value hvalue => ?_) hyields, final, ?_, hfinal⟩
      · have hexit : ¬exit.Final := fun hfinal => hfinal.reply.1 value hvalue
        obtain ⟨hdepth, -, hclosed⟩ := hleaves.closed hm hlast hsuffix hexit
        exact ⟨hdepth, halike.trans hclosed⟩
      · exact (hcallee.head ⟨hstep, Nat.lt_succ_self _⟩).trans hpath

/-- **An instruction that continues has a next fetch**, in the context that it ended in. -/
theorem Ends.exists_nextFetch (hm : m.Standard) (hn : state.Nested m.maxCallDepth)
    (hactive : m.Active state i p state.suspended) {after : Execution}
    (h : m.Ends i state.suspended (.ok .continue) after p) :
    ∃ next, m.NextFetch state next ∧ next.exec.context = after.context := by
  obtain ⟨-, last, hpath, hlast⟩ := h.yields hm hn hactive
  have hstep : m.step last =
      .running ⟨report i (.ok .continue) after, state.suspended⟩ := by
    rw [hlast.step_eq, turn, settle, carry]
  exact ⟨_, ⟨last, hpath, hstep, rfl⟩, rfl⟩

end Machine

end TaggedBytecode
