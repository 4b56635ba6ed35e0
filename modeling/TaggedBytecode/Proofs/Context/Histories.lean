import TaggedBytecode.Proofs.Constant.Reading
import TaggedBytecode.Proofs.Context.Frames

/-!
# Histories of a Context

Whoever holds a context acts on it by **operations** only. Some of them can fail, and a failed
one may still have moved the instruction pointer. A **history** is any number of operations,
failed ones included. After every history of a fresh context each frame **fits** its place: the
root is at the bottom and nowhere else, every other frame links to the one right below it, and
whatever a frame catches at is an address of the program.

So the links form one chain. A **walk** along them passes every frame from where it begins down
to the root, each once, and this is the way that lookups and the search for a catcher take.

## Main definitions

* `Context.Operation`, `Context.perform`, `Context.performAll` — operations and histories.
* `Frame.Fits`, `Context.WellFormed` — frames in their places.
* `Context.Walk` — the frames along the links.

## Main results

* `Context.WellFormed.perform` — every operation keeps the frames in their places.
* `Context.Linked.walk_iff`, `Context.Walk.search_eq` — walks, and searches along them.
* `Context.frames_fit_after_history` — what holds after every history.
-/

namespace TaggedBytecode

/-! ### Operations -/

namespace Context

/-- What can be done to a context. -/
inductive Operation where
  | write (program : Program) (value : Val)
  | readVar (program : Program)
  | assign (slot : Nat) (value : Val)
  | store (slot : Nat) (value : Val)
  | pushScope (handler : Option Nat)
  | pushCall (entry : Nat)
  | pop
  | truncate (depth : Nat)
  | setHandler (target : Nat)
  | clearHandler
  | jump (target : Nat)
  | setIp (ip : Nat)
  | takePending
  | raise (exception : Val) (floor : Nat)

/-- A change that a fault refuses leaves the context as it was. -/
def orKeep (ctx : Context) : Except Fault Context → Except Thrown Unit × Context
  | .ok after => (.ok (), after)
  | .error fault => (.error (.fault fault), ctx)

/-- What an operation throws, if it fails, and the context that it leaves in either case. -/
def perform (ctx : Context) : Operation → Except Thrown Unit × Context
  | .write program value => ctx.orKeep ((ctx.write program value).map (·.2))
  | .readVar program =>
    let (reply, after) := ctx.readVar program
    (reply.map fun _ => (), after)
  | .assign slot value => (.ok (), ctx.assign slot value)
  | .store slot value => (.ok (), ctx.store slot value)
  | .pushScope handler => ctx.orKeep (ctx.pushScope handler)
  | .pushCall entry => ctx.orKeep (ctx.pushCall entry)
  | .pop => (.ok (), (ctx.pop.map (·.2)).getD ctx)
  | .truncate depth => (.ok (), (ctx.truncate depth).2)
  | .setHandler target => ctx.orKeep (ctx.setHandler target)
  | .clearHandler => (.ok (), ctx.clearHandler)
  | .jump target => ctx.orKeep (ctx.jump target)
  | .setIp ip => (.ok (), ctx.setIp ip)
  | .takePending => (.ok (), ctx.clearPending)
  | .raise exception floor =>
    match ctx.raise exception floor with
    | (.ok _, after) => (.ok (), after)
    | (.error value, after) => (.error (.exception value), after)

/-- The context after a history. -/
def performAll (ctx : Context) (history : List Operation) : Context :=
  history.foldl (fun ctx operation => (ctx.perform operation).2) ctx

end Context

/-! ### Frames in their places -/

/-- A frame fits its place in the frames of a run: it is the root just if it is at the bottom,
it links to the frame right below, and it catches at an address of the program. -/
structure Frame.Fits (programLength index : Nat) (f : Frame) : Prop where
  root : f.kind = .root ↔ index = 0
  parent : f.parent = if index = 0 then none else some (index - 1)
  handler : ∀ target ∈ f.handler, target < programLength

/-- A frame fits the place of another of its kind with the same link, if what it catches at is
an address of the program. -/
theorem Frame.Fits.congr {programLength index : Nat} {f g : Frame}
    (h : f.Fits programLength index) (hkind : g.kind = f.kind) (hparent : g.parent = f.parent)
    (hhandler : ∀ target ∈ g.handler, target ∈ f.handler ∨ target < programLength) :
    g.Fits programLength index where
  root := hkind ▸ h.root
  parent := hparent.trans h.parent
  handler target htarget := (hhandler target htarget).elim (h.handler target) id

/-- A frame that differs only in its variables, its instruction pointer or the exception
delivered to it fits as well. -/
theorem Frame.Fits.congr_handler {programLength index : Nat} {f g : Frame}
    (h : f.Fits programLength index) (hkind : g.kind = f.kind) (hparent : g.parent = f.parent)
    (hhandler : g.handler = f.handler) : g.Fits programLength index :=
  h.congr hkind hparent fun _ htarget => .inl (hhandler ▸ htarget)

namespace Context

variable {programLength : Nat} {ctx after : Context}

/-- A context for programs of a length in which every frame fits its place. -/
structure WellFormed (programLength : Nat) (ctx : Context) : Prop where
  length : ctx.programLength = programLength
  fits : ∀ i f, ctx.frame? i = some f → f.Fits programLength i

theorem WellFormed.linked (h : ctx.WellFormed programLength) : ctx.Linked where
  root f hf := by simpa using (h.fits 0 f hf).parent
  child i f hf := by simpa using (h.fits (i + 1) f hf).parent

theorem WellFormed.current (h : ctx.WellFormed programLength) :
    ctx.current.Fits programLength ctx.currentIndex :=
  h.fits _ _ ctx.frame?_currentIndex

theorem wellFormed_start (programLength entry : Nat) :
    (start programLength entry).WellFormed programLength := by
  refine ⟨rfl, fun i f hf => ?_⟩
  obtain rfl : i = 0 := Nat.lt_one_iff.mp (lt_depth_of_frame? hf)
  obtain rfl := Option.some.inj hf
  exact ⟨⟨fun _ => rfl, fun _ => rfl⟩, rfl, nofun⟩

/-! ### Changes of one frame -/

theorem WellFormed.withCurrent (h : ctx.WellFormed programLength) {f : Frame}
    (hf : f.Fits programLength ctx.currentIndex) :
    ({ ctx with current := f } : Context).WellFormed programLength := by
  refine ⟨h.length, fun i g hg => ?_⟩
  rw [frame?_withCurrent] at hg
  split at hg
  · rename_i hi
    obtain rfl := Option.some.inj hg
    exact hi ▸ hf
  · exact h.fits i g hg

theorem WellFormed.setIp (h : ctx.WellFormed programLength) (ip : Nat) :
    (ctx.setIp ip).WellFormed programLength :=
  h.withCurrent (h.current.congr_handler rfl rfl rfl)

theorem WellFormed.store (h : ctx.WellFormed programLength) (slot : Nat) (value : Val) :
    (ctx.store slot value).WellFormed programLength :=
  h.withCurrent (h.current.congr_handler rfl rfl rfl)

theorem WellFormed.clearPending (h : ctx.WellFormed programLength) :
    ctx.clearPending.WellFormed programLength :=
  h.withCurrent (h.current.congr_handler rfl rfl rfl)

theorem WellFormed.clearHandler (h : ctx.WellFormed programLength) :
    ctx.clearHandler.WellFormed programLength :=
  h.withCurrent (h.current.congr rfl rfl nofun)

theorem WellFormed.assign (h : ctx.WellFormed programLength) (slot : Nat) (value : Val) :
    (ctx.assign slot value).WellFormed programLength := by
  rw [Context.assign]
  split
  · refine ⟨(programLength_modifyFrame _ _ _).trans h.length, fun i g hg => ?_⟩
    rw [frame?_modifyFrame] at hg
    split at hg
    · obtain ⟨f, hf, rfl⟩ := Option.map_eq_some_iff.mp hg
      exact (h.fits i f hf).congr_handler rfl rfl rfl
    · exact h.fits i g hg
  · exact h.store slot value

/-! ### Checked targets -/

/-- A change that checks a target first is made only if the target lies in the program. -/
theorem lt_of_checkTarget {target : Nat} {f : Unit → Context}
    (h : (ctx.checkTarget target).map f = .ok after) :
    target < ctx.programLength ∧ after = f () := by
  rw [checkTarget] at h
  split at h
  · exact ⟨‹_›, (Except.ok.inj h).symm⟩
  · cases h

/-- After a jump the instruction pointer lies in the program. -/
theorem ip_lt_of_jump {target : Nat} (h : ctx.jump target = .ok after) :
    after.ip < ctx.programLength := by
  obtain ⟨htarget, rfl⟩ := lt_of_checkTarget h
  exact htarget

theorem WellFormed.jump (h : ctx.WellFormed programLength) {target : Nat}
    (hjump : ctx.jump target = .ok after) : after.WellFormed programLength := by
  obtain ⟨-, rfl⟩ := lt_of_checkTarget hjump
  exact h.setIp target

theorem WellFormed.setHandler (h : ctx.WellFormed programLength) {target : Nat}
    (hset : ctx.setHandler target = .ok after) : after.WellFormed programLength := by
  obtain ⟨htarget, rfl⟩ := lt_of_checkTarget hset
  rw [h.length] at htarget
  refine h.withCurrent (h.current.congr rfl rfl fun t ht => .inr ?_)
  exact Option.some.inj ht ▸ htarget

/-! ### Operands -/

theorem WellFormed.write (h : ctx.WellFormed programLength) {program : Program} {value : Val}
    {slot : Nat} (hwrite : ctx.write program value = .ok (slot, after)) :
    after.WellFormed programLength := by
  obtain ⟨⟨read, next⟩, -, hafter⟩ := bind_eq_ok_iff.mp hwrite
  obtain ⟨-, rfl⟩ := Prod.mk.inj (Except.ok.inj hafter)
  exact (h.setIp next).store read value

theorem WellFormed.readVar (h : ctx.WellFormed programLength) (program : Program) :
    (ctx.readVar program).2.WellFormed programLength := by
  rw [Context.readVar]
  split
  · exact h
  · simp only
    split <;> exact h.setIp _

/-! ### The stack -/

theorem WellFormed.push (h : ctx.WellFormed programLength) {f : Frame} (hkind : f.kind ≠ .root)
    (hparent : f.parent = some ctx.currentIndex)
    (hhandler : ∀ target ∈ f.handler, target < programLength) :
    (ctx.push f).WellFormed programLength := by
  refine ⟨h.length, fun i g hg => ?_⟩
  rw [frame?_push] at hg
  split at hg
  · rename_i hi
    obtain rfl := Option.some.inj hg
    have hpos : i ≠ 0 := hi ▸ Nat.succ_ne_zero _
    refine ⟨⟨fun hroot => absurd hroot hkind, fun hzero => absurd hzero hpos⟩, ?_, hhandler⟩
    rw [if_neg hpos, hparent, hi]
    rfl
  · exact h.fits i g hg

theorem WellFormed.pushScope (h : ctx.WellFormed programLength) {handler : Option Nat}
    (hpush : ctx.pushScope handler = .ok after) : after.WellFormed programLength := by
  simp only [Context.pushScope] at hpush
  split at hpush
  · obtain ⟨htarget, rfl⟩ := lt_of_checkTarget hpush
    rw [h.length] at htarget
    exact h.push nofun rfl fun t ht => Option.some.inj ht ▸ htarget
  · obtain rfl := Except.ok.inj hpush
    exact h.push nofun rfl nofun

theorem WellFormed.pushCall (h : ctx.WellFormed programLength) {entry : Nat}
    (hpush : ctx.pushCall entry = .ok after) : after.WellFormed programLength := by
  obtain ⟨-, rfl⟩ := lt_of_checkTarget hpush
  exact h.push nofun rfl nofun

theorem WellFormed.pop (h : ctx.WellFormed programLength) {released : Frame}
    (hpop : ctx.pop = some (released, after)) : after.WellFormed programLength := by
  obtain ⟨-, hlen, hkept, below, hbelow, ip, hcurrent⟩ := pop_eq_some hpop
  refine ⟨hlen.trans h.length, fun i g hg => ?_⟩
  by_cases htop : i = after.currentIndex
  · rw [htop, frame?_currentIndex, Option.some.injEq] at hg
    subst hg
    rw [htop, hcurrent]
    exact (h.fits _ below hbelow).congr_handler rfl rfl rfl
  · have hi : i < after.currentIndex + 1 := lt_depth_of_frame? hg
    rw [hkept i (by omega)] at hg
    exact h.fits i g hg

theorem WellFormed.truncate (h : ctx.WellFormed programLength) (depth : Nat) :
    (ctx.truncate depth).2.WellFormed programLength := by
  refine ⟨(programLength_truncate ctx depth).trans h.length, fun i g hg => ?_⟩
  rw [frame?_truncate] at hg
  split at hg
  · exact h.fits i g hg
  · cases hg

/-! ### Exceptions -/

theorem WellFormed.caught (h : ctx.WellFormed programLength) {index : Nat} {exception : Val}
    (hcaught : Caught ctx index exception after) : after.WellFormed programLength := by
  obtain ⟨f, target, hf, -, hcatcher⟩ := hcaught.catcher
  refine ⟨hcaught.programLength.trans h.length, fun i g hg => ?_⟩
  have hi : i < index + 1 := hcaught.depth ▸ lt_depth_of_frame? hg
  rcases Nat.lt_or_eq_of_le (Nat.le_of_lt_succ hi) with hlt | rfl
  · rw [hcaught.below i hlt] at hg
    exact h.fits i g hg
  · obtain rfl := Option.some.inj (hcatcher.symm.trans hg)
    exact (h.fits i f hf).congr_handler rfl rfl rfl

/-- What raising does: the exception is caught by some frame, or it comes back and the context
stays as it was. -/
theorem raise_cases (ctx : Context) (exception : Val) (floor : Nat) :
    (∃ recovered index after, ctx.raise exception floor = (.ok recovered, after) ∧
        Caught ctx index exception after) ∨
      ctx.raise exception floor = (.error exception, ctx) := by
  cases hcatcher : ctx.catcher floor with
  | none => exact .inr (raise_of_no_catcher hcatcher exception)
  | some index =>
      obtain ⟨recovered, after, hraise, hcaught⟩ := raise_of_catcher hcatcher exception
      exact .inl ⟨recovered, index, after, hraise, hcaught⟩

/-- After an exception was caught the instruction pointer lies in the program. -/
theorem WellFormed.ip_lt_of_raise (h : ctx.WellFormed programLength) {exception : Val}
    {floor : Nat} {recovered : Recovered}
    (hraise : ctx.raise exception floor = (.ok recovered, after)) : after.ip < programLength := by
  rcases ctx.raise_cases exception floor with ⟨_, index, caught, hcase, hcaught⟩ | hcase
  · obtain rfl : after = caught := congrArg Prod.snd (hraise.symm.trans hcase)
    obtain ⟨f, target, hf, htarget, hcatcher⟩ := hcaught.catcher
    obtain rfl : index = after.currentIndex := (Nat.succ.inj hcaught.depth).symm
    rw [frame?_currentIndex, Option.some.injEq] at hcatcher
    rw [ip, hcatcher]
    exact (h.fits _ f hf).handler target htarget
  · rw [hraise] at hcase
    cases hcase

/-! ### Histories -/

/-- What is kept whether or not a change is refused. -/
theorem WellFormed.orKeep (h : ctx.WellFormed programLength) {result : Except Fault Context}
    (hresult : ∀ after, result = .ok after → after.WellFormed programLength) :
    (ctx.orKeep result).2.WellFormed programLength := by
  cases result with
  | ok after => exact hresult after rfl
  | error fault => exact h

/-- **Every operation keeps the frames in their places**, whether or not it fails. -/
theorem WellFormed.perform (h : ctx.WellFormed programLength) (operation : Operation) :
    (ctx.perform operation).2.WellFormed programLength := by
  cases operation with
  | write program value =>
      refine h.orKeep fun after hafter => ?_
      obtain ⟨written, hwrite, rfl⟩ := map_eq_ok_iff.mp hafter
      exact h.write hwrite
  | readVar program => exact h.readVar program
  | assign slot value => exact h.assign slot value
  | store slot value => exact h.store slot value
  | pushScope handler => exact h.orKeep fun _ hafter => h.pushScope hafter
  | pushCall entry => exact h.orKeep fun _ hafter => h.pushCall hafter
  | pop =>
      simp only [Context.perform]
      cases hpop : ctx.pop with
      | none => exact h
      | some popped => exact h.pop hpop
  | truncate depth => exact h.truncate depth
  | setHandler target => exact h.orKeep fun _ hafter => h.setHandler hafter
  | clearHandler => exact h.clearHandler
  | jump target => exact h.orKeep fun _ hafter => h.jump hafter
  | setIp ip => exact h.setIp ip
  | takePending => exact h.clearPending
  | raise exception floor =>
      simp only [Context.perform]
      rcases ctx.raise_cases exception floor with ⟨_, _, after, hraise, hcaught⟩ | hraise
      · rw [hraise]
        exact h.caught hcaught
      · rw [hraise]
        exact h

/-- What holds in a fresh context holds after every history. Induction on the history. -/
theorem WellFormed.performAll (h : ctx.WellFormed programLength) (history : List Operation) :
    (ctx.performAll history).WellFormed programLength := by
  induction history generalizing ctx with
  | nil => exact h
  | cons operation rest ih => exact ih (h.perform operation)

/-! ### Walks -/

/-- The frames that a walk along the links visits, from the one it begins at on. -/
inductive Walk (ctx : Context) : Nat → List Nat → Prop
  | ends {i : Nat} {f : Frame} : ctx.frame? i = some f → f.parent = none → Walk ctx i [i]
  | climbs {i parent : Nat} {f : Frame} {visited : List Nat} :
      ctx.frame? i = some f → f.parent = some parent → Walk ctx parent visited →
      Walk ctx i (i :: visited)

/-- A walk from the root ends there. -/
theorem walk_iff_of_ends {i : Nat} {f : Frame} (hf : ctx.frame? i = some f)
    (hparent : f.parent = none) {visited : List Nat} : ctx.Walk i visited ↔ visited = [i] := by
  constructor
  · rintro (_ | ⟨hg, hclimbs, -⟩)
    · rfl
    · obtain rfl := Option.some.inj (hf.symm.trans hg)
      rw [hparent] at hclimbs
      cases hclimbs
  · rintro rfl
    exact .ends hf hparent

/-- A walk from any other frame goes on from its parent. -/
theorem walk_iff_of_climbs {i parent : Nat} {f : Frame} (hf : ctx.frame? i = some f)
    (hparent : f.parent = some parent) {visited : List Nat} :
    ctx.Walk i visited ↔ ∃ rest, visited = i :: rest ∧ ctx.Walk parent rest := by
  constructor
  · rintro (⟨hg, hends⟩ | ⟨hg, hclimbs, hwalk⟩)
    · obtain rfl := Option.some.inj (hf.symm.trans hg)
      rw [hparent] at hends
      cases hends
    · obtain rfl := Option.some.inj (hf.symm.trans hg)
      obtain rfl := Option.some.inj (hparent.symm.trans hclimbs)
      exact ⟨_, rfl, hwalk⟩
  · rintro ⟨rest, rfl, hwalk⟩
    exact .climbs hf hparent hwalk

/-- **In a linked context there is one walk from every frame**: it visits the frame and all
below it, each once, and ends at the root. Induction on the frame it begins at. -/
theorem Linked.walk_iff (h : ctx.Linked) {i : Nat} (hi : i < ctx.depth) {visited : List Nat} :
    ctx.Walk i visited ↔ visited = (List.range (i + 1)).reverse := by
  obtain ⟨f, hf⟩ := exists_frame?_of_lt hi
  induction i generalizing visited f with
  | zero => exact walk_iff_of_ends hf (h.root f hf)
  | succ i ih =>
      obtain ⟨g, hg⟩ := exists_frame?_of_lt (Nat.lt_of_succ_lt hi)
      simp only [walk_iff_of_climbs hf (h.child i f hf), ih (Nat.lt_of_succ_lt hi) g hg,
        exists_eq_right]
      rw [List.range_succ (n := i + 1), List.reverse_concat]

/-- A search takes the way of a walk: with fuel for all of it, the search finds the first
frame on the walk that is wanted. -/
theorem Walk.search_eq {i : Nat} {visited : List Nat} (h : ctx.Walk i visited)
    (wanted : Nat → Frame → Bool) {fuel : Nat} (hfuel : visited.length ≤ fuel) :
    ctx.search wanted fuel i = visited.find? fun j => (ctx.frame? j).any (wanted j) := by
  induction h generalizing fuel with
  | @ends i f hf hparent =>
      obtain ⟨fuel, rfl⟩ := Nat.exists_eq_add_one_of_ne_zero (Nat.ne_of_gt hfuel)
      rw [search, List.find?_cons]
      simp only [hf, hparent, Option.any_some, List.find?_nil]
      cases wanted i f <;> rfl
  | @climbs i parent f visited hf hparent _ ih =>
      obtain ⟨fuel, rfl⟩ := Nat.exists_eq_add_one_of_ne_zero
        (Nat.ne_of_gt (Nat.lt_of_lt_of_le (Nat.succ_pos _) hfuel))
      rw [search, List.find?_cons]
      simp only [hf, hparent, Option.any_some, ih (Nat.le_of_succ_le_succ hfuel)]
      cases wanted i f <;> rfl

/-! ### What holds after every history -/

theorem getElem?_frames (ctx : Context) (i : Nat) : ctx.frames[i]? = ctx.frame? i := by
  rw [frames, frame?, List.getElem?_append, Array.length_toList, Array.getElem?_toList]
  grind

/-- **After every history each frame is in its place.** There always is a frame; the one at the
bottom, and no other, is the root and links to none, and every other links to the frame right
below it. What a frame catches at lies in the program, and so does the instruction pointer
after a jump or after an exception was caught. A walk along the links from any frame visits
that frame and all below it, each once, down to the root, and just so does a search. -/
theorem frames_fit_after_history (programLength entry : Nat) (history : List Operation)
    {ctx : Context} (hctx : (start programLength entry).performAll history = ctx) :
    ctx.frames ≠ [] ∧
    (∀ i f, ctx.frames[i]? = some f → (f.kind = .root ↔ i = 0) ∧
      (f.parent = if i = 0 then none else some (i - 1)) ∧
      ∀ target ∈ f.handler, target < programLength) ∧
    (∀ target after, ctx.jump target = .ok after → after.ip < programLength) ∧
    (∀ exception floor recovered after, ctx.raise exception floor = (.ok recovered, after) →
      after.ip < programLength) ∧
    ∀ i < ctx.frames.length,
      (∀ visited, ctx.Walk i visited ↔ visited = (List.range (i + 1)).reverse) ∧
      ∀ wanted, ctx.search wanted ctx.depth i =
        (List.range (i + 1)).reverse.find? fun j => (ctx.frame? j).any (wanted j) := by
  have h : ctx.WellFormed programLength := hctx ▸ (wellFormed_start _ entry).performAll history
  have hdepth : ctx.frames.length = ctx.depth := by simp [frames, depth]
  have hsome : ctx.frames ≠ [] := List.append_ne_nil_of_right_ne_nil _ (List.cons_ne_nil _ _)
  refine ⟨hsome, fun i f hf => ?_, fun target after hjump => ?_,
    fun exception floor recovered after hraise => h.ip_lt_of_raise hraise, fun i hi => ?_⟩
  · rw [getElem?_frames] at hf
    obtain ⟨hroot, hparent, hhandler⟩ := h.fits i f hf
    exact ⟨hroot, hparent, hhandler⟩
  · exact h.length ▸ ip_lt_of_jump hjump
  · rw [hdepth] at hi
    have hwalk := fun visited : List Nat => (h.linked.walk_iff hi : _ ↔ visited = _)
    refine ⟨hwalk, fun wanted => ((hwalk _).mpr rfl).search_eq wanted ?_⟩
    rwa [List.length_reverse, List.length_range]

/-- A handler outside the program is refused, an exception is not caught above its floor, and
another is caught by the scope below the call. -/
def refusedThenCaught : List Operation :=
  [.pushScope (some 4), .setHandler 7, .pushCall 2, .raise (.int 1) 2, .raise (.int 2) 0]

theorem frames_fit_after_history_refusedThenCaught :
    ∃ ctx, (start 5).performAll refusedThenCaught = ctx ∧ ctx.frames.length = 2 ∧ ctx.ip = 4 ∧
      (∃ f, ctx.frames[1]? = some f ∧ f.parent = some 0 ∧ ∀ target ∈ f.handler, target < 5) ∧
      ctx.Walk 1 [1, 0] := by
  obtain ⟨-, hframes, -, -, hwalks⟩ := frames_fit_after_history 5 0 refusedThenCaught rfl
  obtain ⟨-, hparent, hhandler⟩ := hframes 1 _ rfl
  exact ⟨_, rfl, rfl, rfl, ⟨_, rfl, hparent, hhandler⟩, ((hwalks 1 Nat.one_lt_two).1 _).mpr rfl⟩

end Context

end TaggedBytecode
