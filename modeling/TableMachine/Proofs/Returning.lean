import Mathlib.Data.List.TakeWhile
import TableMachine.Proofs.Restoring

/-! # A return restores the caller

Between a call and the return of its activation, the called function may call others, leave try regions
open, have faults caught and pile up values. `Suspends` is what all of this keeps: the values, the
activations and the handlers of the time of the call are still at the bottom of their stacks, and whatever
lies above belongs to the called activation or to one begun later. The return then cuts each stack exactly
there.

Nothing of this is known once the activation has been discarded by a fault that an outer handler caught;
its number is never given again, so it does not return either.
-/

namespace TableMachine

namespace Machine

/-! ## What happens between a call and its return -/

/-- The next instruction ends a try region and removes the handler `h`. -/
def Removes (m : Machine) (h : Handler) : Prop :=
  ∃ frame i, m.Fetches frame i ∧ (i.op = .endTry ∨ i.op = .popHandler) ∧ m.handlers.top? = some h

/-- The next instruction removes none of the given handlers. -/
def Keeps (handlers : Stack Handler) (m : Machine) : Prop :=
  ∀ h, m.Removes h → ∀ g ∈ handlers.items, h.serial ≠ g.serial

/-- A step whose instruction takes none of the lowest `k` values and removes none of the handlers. -/
def InnerStep (s : Setup) (k : Nat) (handlers : Stack Handler) (m m' : Machine) : Prop :=
  m.Spares k ∧ m.Keeps handlers ∧ Steps s m m'

/-- The latest of the values that the activation put on the stack, or null where it has none there. -/
def ownTop (m : Machine) (f : Frame) : Value :=
  if f.stackStart < m.stack.height then m.stack.top?.getD .null else .null

/-- The innermost activation `f` is about to return `result`: by an instruction, or because its code is
used up. -/
inductive Ending (m : Machine) (f : Frame) : Value → Prop where
  | returns {i} (fetches : m.Fetches f i) (return_ : i.op = .return_) : Ending m f (m.ownTop f)
  | runsOff (top : m.frames.top? = some f) (end_ : f.chunk.codeSize ≤ f.ip) : Ending m f .null

theorem keeps_of_fetches {m : Machine} {frame : Frame} {i : Chunk.Instruction} {handlers : Stack Handler}
    (fetches : m.Fetches frame i) (other : ¬ (i.op = .endTry ∨ i.op = .popHandler)) :
    m.Keeps handlers := by
  rintro h ⟨frame', i', fetches', end_, _⟩
  cases fetches.top.symm.trans fetches'.top
  cases fetches.instruction.symm.trans fetches'.instruction
  exact absurd end_ other

variable {s : Setup} {m m' m₀ a b c : Machine} {main : Chunk} {frame caller called ended f : Frame}
  {i : Chunk.Instruction} {region : TryRegion} {h : Handler} {base : Stack Value}
  {callers : Stack Frame} {outer : Stack Handler} {result : Value} {taken put n : Nat}

/-! ## The invariant -/

/-- The activation begun as `called` is live. -/
def Lives (m : Machine) (called : Frame) : Prop :=
  ∃ p f, m.frames.get? p = some f ∧ f.serial = called.serial

/-- What was there when `called` began lies untouched below it. -/
structure Suspends (m : Machine) (base : Stack Value) (callers : Stack Frame)
    (outer : Stack Handler) (called : Frame) : Prop where
  values : m.stack.truncate base.height = base
  frames : m.frames.truncate callers.height = callers
  callee : ∃ f, m.frames.get? callers.height = some f ∧ called.Continues f
  starts : ∀ p f, m.frames.get? p = some f → callers.height ≤ p → base.height ≤ f.stackStart
  handlers : ∃ inner, m.handlers.items = inner ++ outer.items ∧
    ∀ h ∈ inner, callers.height ≤ h.frameIndex ∧ base.height ≤ h.stackHeight

structure Awaits (m : Machine) (base : Stack Value) (callers : Stack Frame)
    (outer : Stack Handler) (called : Frame) : Prop where
  begun : called.serial ≤ m.activations
  lower : ∀ h ∈ outer.items, h.frameIndex < callers.height
  suspends : m.Lives called → m.Suspends base callers outer called

namespace Suspends

variable (inside : m.Suspends base callers outer called)

include inside

theorem height_le : base.height ≤ m.stack.height := by
  have height := congrArg Stack.height inside.values
  rw [Stack.height_truncate] at height
  omega

theorem callers_lt : callers.height < m.frames.height := by
  obtain ⟨f, found, _⟩ := inside.callee
  exact Stack.lt_height_of_get? found

/-- The activation has its place right above its caller. -/
theorem position_eq (numbers : m.Numbered) {p : Nat} (found : m.frames.get? p = some f)
    (same : f.serial = called.serial) : p = callers.height := by
  obtain ⟨g, place, continues⟩ := inside.callee
  have serial := continues.serial
  rcases Nat.lt_trichotomy p callers.height with below | equal | above
  · have less := numbers.frames _ _ _ _ below found place
    omega
  · exact equal
  · have less := numbers.frames _ _ _ _ above place found
    omega

end Suspends

private theorem truncate_modifyTop {α : Type} {t : Stack α} (change : α → α) (below : n < t.height) :
    (t.modifyTop change).truncate n = t.truncate n := by
  obtain ⟨items, height, height_eq⟩ := t
  cases items with
  | nil => rfl
  | cons x rest =>
      simp only [List.length_cons] at height_eq
      apply Stack.ext
      show ((change x) :: rest).drop (height - n) = (x :: rest).drop (height - n)
      simp only at below
      rw [show height - n = (height - n - 1) + 1 by omega, List.drop_succ_cons, List.drop_succ_cons]

private theorem drop_modifyTop {α : Type} {t : Stack α} (change : α → α) :
    (t.modifyTop change).drop 1 = t.drop 1 := by
  obtain ⟨items, height, height_eq⟩ := t
  cases items with
  | nil => rfl
  | cons x rest => rfl

/-- A return drops inner handlers only. -/
private theorem dropWhile_inner {inner lower : List Handler} (low : ∀ h ∈ lower, h.frameIndex < n) :
    (inner ++ lower).dropWhile (fun h => n ≤ h.frameIndex) =
      inner.dropWhile (fun h => n ≤ h.frameIndex) ++ lower := by
  induction inner with
  | nil =>
      cases lower with
      | nil => rfl
      | cons g rest =>
          have first := low g List.mem_cons_self
          simp [first]
  | cons g rest ih =>
      simp only [List.cons_append, List.dropWhile_cons]
      split
      · exact ih
      · rfl

/-- Where activations and handlers are only taken away, the lower parts of the three stacks are all that
has to be shown. -/
theorem Shrinks.awaits (shrinks : m.Shrinks m') (numbers : m.Numbered)
    (kept : m.Awaits base callers outer called)
    (rest : callers.height < m'.frames.height → m.Suspends base callers outer called →
      m'.stack.truncate base.height = m.stack.truncate base.height ∧
      m'.frames.truncate callers.height = m.frames.truncate callers.height ∧
      ∃ inner, m'.handlers.items = inner ++ outer.items ∧
        ∀ h ∈ inner, callers.height ≤ h.frameIndex ∧ base.height ≤ h.stackHeight) :
    m'.Awaits base callers outer called where
  begun := by
    rw [shrinks.activations]
    exact kept.begun
  lower := kept.lower
  suspends := by
    rintro ⟨p, g, found, same⟩
    obtain ⟨f, before, continues⟩ := shrinks.frames p g found
    have inside := kept.suspends ⟨p, f, before, continues.serial ▸ same⟩
    have position := inside.position_eq numbers before (continues.serial ▸ same)
    subst position
    obtain ⟨values, frames, handlers⟩ := rest (Stack.lt_height_of_get? found) inside
    refine ⟨values.trans inside.values, frames.trans inside.frames, ?_, ?_, handlers⟩
    · obtain ⟨f', place, begun⟩ := inside.callee
      rw [before] at place
      cases place
      exact ⟨g, found, begun.trans continues⟩
    · intro p g found above
      obtain ⟨f, before, continues⟩ := shrinks.frames p g found
      rw [continues.stackStart]
      exact inside.starts p f before above

/-! ## Steps -/

theorem Works.awaits (change : m.Works taken put m') (inv : m.Bracketed s) (numbers : m.Numbered)
    (kept : m.Awaits base callers outer called)
    (above : base.height ≤ m.stack.height → base.height + taken ≤ m.stack.height) :
    m'.Awaits base callers outer called := by
  refine (change.shrinks inv).awaits numbers kept ?_
  intro _ inside
  obtain ⟨move, _, frames⟩ := change.frames
  refine ⟨change.truncate (above inside.height_le), ?_, ?_⟩
  · rw [frames]
    exact truncate_modifyTop move inside.callers_lt
  · rw [change.handlers]
    exact inside.handlers

/-- Since the handler that goes is none of the outer ones, it is one of the inner ones. -/
theorem Leaves.awaits (change : m.Leaves m') (inv : m.Bracketed s) (numbers : m.Numbered)
    (kept : m.Awaits base callers outer called)
    (keeps : ∀ h, m.handlers.top? = some h → ∀ g ∈ outer.items, h.serial ≠ g.serial) :
    m'.Awaits base callers outer called := by
  refine (change.shrinks inv).awaits numbers kept ?_
  intro _ inside
  obtain ⟨move, _, frames⟩ := change.frames
  refine ⟨by rw [change.stack], ?_, ?_⟩
  · rw [frames]
    exact truncate_modifyTop move inside.callers_lt
  · obtain ⟨inner, items, high⟩ := inside.handlers
    rw [change.handlers, Stack.items_drop, items]
    cases inner with
    | nil =>
        cases lower : outer.items with
        | nil => exact ⟨[], rfl, by simp⟩
        | cons g rest =>
            have top : m.handlers.top? = some g := by
              rw [Stack.top?_eq_some_iff]
              exact ⟨rest, by rw [items, lower]; rfl⟩
            exact absurd rfl (keeps g top g (by rw [lower]; exact List.mem_cons_self))
    | cons g inner =>
        exact ⟨inner, rfl, fun h member => high h (List.mem_cons_of_mem g member)⟩

/-- While the activation is live, one that ends lies above it. -/
theorem Returns.awaits (change : m.Returns ended result m') (inv : m.Bracketed s)
    (numbers : m.Numbered) (kept : m.Awaits base callers outer called) :
    m'.Awaits base callers outer called := by
  refine (change.shrinks inv).awaits numbers kept ?_
  intro alive inside
  rw [change.frames, Stack.height_drop] at alive
  have top := change.top
  rw [Stack.top?_eq_get?] at top
  have start := inside.starts _ ended top (by omega)
  have height := inside.height_le
  refine ⟨?_, ?_, ?_⟩
  · rw [change.stack, Stack.truncate_push (by rw [Stack.height_truncate]; omega),
      Stack.truncate_truncate start]
  · rw [change.frames]
    exact Stack.truncate_drop (by omega)
  · obtain ⟨inner, items, high⟩ := inside.handlers
    refine ⟨inner.dropWhile fun h => m.topIndex ≤ h.frameIndex, ?_, ?_⟩
    · rw [change.handlers]
      show m.handlers.items.dropWhile _ = _
      rw [items]
      apply dropWhile_inner
      intro h member
      have low := kept.lower h member
      simp only [topIndex]
      omega
    · intro h member
      exact high h ((List.dropWhile_sublist _).subset member)

/-- While the activation is live, the handler that catches a fault is an inner one. -/
theorem resumed_awaits {newer older : List Handler} {owner bound : Frame} (inv : m.Bracketed s)
    (numbers : m.Numbered) (handlers : m.handlers.items = newer ++ h :: older)
    (owned : m.frames.get? h.frameIndex = some owner) (continues : owner.Continues bound)
    (kept : m.Awaits base callers outer called) :
    (m.resumed h older bound).Awaits base callers outer called := by
  refine (resumed_shrinks inv handlers owned continues).awaits numbers kept ?_
  intro alive inside
  have inRange := Stack.lt_height_of_get? owned
  have high : callers.height < h.frameIndex + 1 := by
    have height : (m.resumed h older bound).frames.height = min m.frames.height (h.frameIndex + 1) := by
      show ((m.frames.truncate _).modifyTop _).height = _
      rw [Stack.height_modifyTop, Stack.height_truncate]
    omega
  obtain ⟨inner, items, above⟩ := inside.handlers
  -- The inner handlers end at or after the one that catches.
  have split : ∃ rest, inner = newer ++ h :: rest ∧ older = rest ++ outer.items := by
    rw [handlers, List.append_eq_append_iff] at items
    rcases items with ⟨mid, rfl, lower⟩ | ⟨mid, rfl, lower⟩
    · cases mid with
      | nil =>
          have low := kept.lower h (by rw [← List.nil_append outer.items, ← lower]; simp)
          omega
      | cons g rest =>
          simp only [List.cons_append, List.cons.injEq] at lower
          obtain ⟨rfl, rfl⟩ := lower
          exact ⟨rest, rfl, rfl⟩
    · have low := kept.lower h (by rw [lower]; simp)
      omega
  obtain ⟨rest, rfl, rfl⟩ := split
  have own := above h (by simp)
  refine ⟨Stack.truncate_truncate own.2, ?_, ?_⟩
  · show ((m.frames.truncate (h.frameIndex + 1)).modifyTop _).truncate _ = _
    rw [truncate_modifyTop _ (by rw [Stack.height_truncate]; omega),
      Stack.truncate_truncate (by omega)]
  · refine ⟨{ h with fired := true } :: rest, rfl, ?_⟩
    intro g member
    rcases List.mem_cons.mp member with rfl | member
    · exact own
    · exact above g (by simp [member])

theorem Activates.awaits {begun : Frame} (change : m.Activates s begun m')
    (kept : m.Awaits base callers outer called) : m'.Awaits base callers outer called where
  begun := by
    rw [change.activations]
    exact Nat.le_succ_of_le kept.begun
  lower := kept.lower
  suspends := by
    rintro ⟨p, f, found, same⟩
    rw [change.frames] at found
    have older := kept.begun
    have live : m.Lives called := by
      rcases Stack.get?_push_cases found with ⟨_, before⟩ | ⟨_, rfl⟩
      · exact ⟨p, f, before, same⟩
      · rw [change.serial] at same
        omega
    have inside := kept.suspends live
    have lt := inside.callers_lt
    refine ⟨?_, ?_, ?_, ?_, ?_⟩
    · rw [change.stack]
      exact inside.values
    · rw [change.frames, Stack.truncate_push (by omega)]
      exact inside.frames
    · rw [change.frames, Stack.get?_push_of_lt lt]
      exact inside.callee
    · intro p f found above
      rw [change.frames] at found
      rcases Stack.get?_push_cases found with ⟨_, before⟩ | ⟨_, rfl⟩
      · exact inside.starts p f before above
      · rw [change.stackStart]
        exact inside.height_le
    · rw [change.handlers]
      exact inside.handlers

theorem Enters.awaits (change : m.Enters frame region m')
    (kept : m.Awaits base callers outer called) : m'.Awaits base callers outer called where
  begun := by
    rw [change.activations]
    exact kept.begun
  lower := kept.lower
  suspends := by
    intro live
    unfold Lives at live
    rw [change.frames] at live
    have inside := kept.suspends live
    obtain ⟨inner, items, high⟩ := inside.handlers
    refine ⟨?_, ?_, ?_, ?_, ?_⟩
    · rw [change.stack]
      exact inside.values
    · rw [change.frames]
      exact inside.frames
    · rw [change.frames]
      exact inside.callee
    · rw [change.frames]
      exact inside.starts
    · refine ⟨m.handlerOf frame region :: inner, ?_, ?_⟩
      · rw [change.handlers, Stack.items_push, items]
        rfl
      · intro h member
        rcases List.mem_cons.mp member with rfl | member
        · exact ⟨Nat.le_sub_one_of_lt inside.callers_lt, inside.height_le⟩
        · exact high h member

theorem Executes.awaits (executes : m.Executes s frame i m') (inv : m.Bracketed s)
    (numbers : m.Numbered) (spares : m.Spares base.height) (keeps : m.Keeps outer)
    (kept : m.Awaits base callers outer called) : m'.Awaits base callers outer called := by
  have start := (fetched_works m frame i).shrinks inv
  have inv' := start.bracketed inv
  have numbers' := start.numbered numbers
  have kept' := (fetched_works m frame i).awaits inv numbers kept fun present => present
  have above := spares.above executes.fetches executes.enough
  cases executes.completes with
  | works _ change => exact change.awaits inv' numbers' kept' above
  | calls _ change => exact change.awaits ((Works.drop _ _).awaits inv' numbers' kept' above)
  | enters _ change => exact change.awaits kept'
  | leaves end_ change =>
      exact change.awaits inv' numbers' kept' fun h top => keeps h ⟨frame, i, executes.fetches, end_, top⟩
  | returns _ change => exact change.awaits inv' numbers' kept'

theorem Advances.awaits (advances : m.Advances s m') (inv : m.Bracketed s) (numbers : m.Numbered)
    (spares : m.Spares base.height) (keeps : m.Keeps outer)
    (kept : m.Awaits base callers outer called) : m'.Awaits base callers outer called := by
  cases advances with
  | executes executes => exact executes.awaits inv numbers spares keeps kept
  | @catches frame i cause raised _ faults caught =>
      have start := (fetched_works m frame i).shrinks inv
      have kept₁ := (fetched_works m frame i).awaits inv numbers kept fun present => present
      have kept₂ := faults.raises.works.awaits (start.bracketed inv) (start.numbered numbers) kept₁
        (spares.above faults.fetches faults.enough)
      have shrinks := faults.shrinks inv
      obtain ⟨h, clause, older, owner, bound, found, owned, entered, rfl⟩ := dispatch_caught caught
      obtain ⟨newer, handlers, _⟩ := catcher?_eq_some_iff.mp found
      exact resumed_awaits (shrinks.bracketed inv) (shrinks.numbered numbers) handlers owned
        (enterCatch?_continues entered) kept₂
  | ends _ _ change => exact change.awaits inv numbers kept

/-! ## The run from the call to the return -/

theorem Ending.top (ending : m.Ending f result) : m.frames.top? = some f := by
  cases ending with
  | returns fetches _ => exact fetches.top
  | runsOff top _ => exact top

/-- A call that pushed an activation began it on what its operands left. -/
theorem Executes.activates (executes : a.Executes s caller i b)
    (pushed : b.frames = (a.fetched caller i).frames.push called) :
    i.op = .call ∧ ((a.fetched caller i).drop (needed i.op i.operand)).Activates s called b := by
  have height := congrArg Stack.height pushed
  rw [Stack.height_push] at height
  cases executes.completes with
  | works _ change =>
      obtain ⟨_, _, frames⟩ := change.frames
      rw [frames, Stack.height_modifyTop] at height
      omega
  | calls call change =>
      have items := congrArg Stack.items (change.frames.symm.trans pushed)
      obtain ⟨rfl, _⟩ := List.cons.inj items
      exact ⟨call, change⟩
  | enters _ change =>
      rw [change.frames] at height
      omega
  | leaves _ change =>
      obtain ⟨_, _, frames⟩ := change.frames
      rw [frames, Stack.height_modifyTop] at height
      omega
  | returns _ change =>
      rw [change.frames, Stack.height_drop] at height
      omega

/-- Right after a call, everything else lies below the new activation. -/
theorem Activates.suspends (change : m.Activates s called m') (inv : m.Bracketed s) :
    m'.Awaits m.stack m.frames m.handlers called where
  begun := Nat.le_of_eq (change.serial.trans change.activations.symm)
  lower := fun _ => inv.frameIndex_lt
  suspends := by
    intro _
    refine ⟨?_, ?_, ?_, ?_, ?_⟩
    · rw [change.stack]
      exact Stack.truncate_of_height_le (Nat.le_refl _)
    · rw [change.frames, Stack.truncate_push (Nat.le_refl _)]
      exact Stack.truncate_of_height_le (Nat.le_refl _)
    · exact ⟨called, by rw [change.frames, Stack.get?_push_height], .refl called⟩
    · intro p f found above
      rw [change.frames] at found
      rcases Stack.get?_push_cases found with ⟨below, _⟩ | ⟨_, rfl⟩
      · omega
      · exact Nat.le_of_eq change.stackStart.symm
    · exact ⟨[], by rw [change.handlers]; rfl, by simp⟩

theorem awaits_of_innerSteps (run : Reaches s (m₀.start main) b)
    (between : Relation.ReflTransGen (InnerStep s base.height outer) b c)
    (kept : b.Awaits base callers outer called) :
    Reaches s (m₀.start main) c ∧ c.Awaits base callers outer called := by
  induction between with
  | refl => exact ⟨run, kept⟩
  | tail _ step ih =>
      obtain ⟨spares, keeps, next⟩ := step
      obtain ⟨run, kept⟩ := ih
      exact ⟨run.tail next, (step_advances next).awaits (reaches_bracketed run) (reaches_numbered run)
        spares keeps kept⟩

/-- What is remembered depends on the function and the arguments of the ending activation only. -/
theorem remember_memos {g : Frame} (memos : m'.memos = m.memos) (continues : f.Continues g) :
    (m'.remember s g result).memos = (m.remember s f result).memos := by
  unfold remember
  rw [continues.routine, continues.arguments]
  split
  · split
    · exact memos
    · simp only [setMemo, memo?, memos]
  · exact memos

/-- Ending an activation that is not the last one succeeds. -/
theorem exists_returnFrom (s : Setup) (result : Value) (top : m.frames.top? = some ended)
    (nested : 1 < m.frames.height) :
    ∃ m', m.returnFrom s result = .done m' ∧ m.Returns ended result m' ∧
      m'.memos = (m.remember s ended result).memos := by
  have inhabited : (m.frames.drop 1).isEmpty = false := by
    rw [m.frames.height_eq] at nested
    simp only [Stack.isEmpty, Stack.items_drop, List.isEmpty_eq_false_iff, ne_eq, List.drop_eq_nil_iff]
    omega
  obtain ⟨memos, remembered⟩ :=
    remember_eq s { m with stack := m.stack.truncate ended.stackStart } ended result
  have stored : memos = (m.remember s ended result).memos := by
    have kept : _ = memos := congrArg Machine.memos remembered
    exact kept.symm.trans (remember_memos rfl (.refl ended))
  have done : ∃ m', m.returnFrom s result = .done m' ∧ m'.memos = memos := by
    unfold returnFrom
    simp only [top, remembered, inhabited]
    exact ⟨_, rfl, rfl⟩
  obtain ⟨m', done, kept⟩ := done
  obtain ⟨ended', change⟩ := returnFrom_done done
  cases top.symm.trans change.top
  exact ⟨m', done, change, kept.trans stored⟩

/-- `d` comes right after `c`, whose innermost activation `f` returned `result`. -/
structure Returned (s : Setup) (c : Machine) (f : Frame) (result : Value) (d : Machine) : Prop where
  steps : Steps s c d
  stack : d.stack = (c.stack.truncate f.stackStart).push result
  frames : d.frames = c.frames.drop 1
  handlers : d.handlers = c.handlers.dropWhile fun h => c.topIndex ≤ h.frameIndex
  memos : d.memos = (c.remember s f result).memos

/-- The instruction that returns ends its activation in a machine from which at most the result was
taken. -/
theorem Fetches.returned {g : Frame} (fetches : c.Fetches f i) (return_ : i.op = .return_)
    (continues : f.Continues g)
    (executed : (c.fetched f i).execute s f i.op i.operand = .done m')
    (change : (c.fetched f i).Returns g result m')
    (stored : m'.memos = (c.remember s f result).memos) : Returned s c f result m' where
  steps := by
    refine Executes.steps ⟨fetches, ?_, executed⟩
    rw [return_]
    exact Nat.zero_le _
  stack := by
    rw [← continues.stackStart]
    exact change.stack
  frames := by
    rw [change.frames]
    exact drop_modifyTop _
  handlers := by
    rw [change.handlers, topIndex]
    have height : (c.fetched f i).frames.height = c.frames.height := Stack.height_modifyTop _
    rw [height]
    rfl
  memos := stored

/-- An activation that is about to return does so, unless it is the last one. -/
theorem Ending.returned (s : Setup) (ending : c.Ending f result) (nested : 1 < c.frames.height) :
    ∃ d, Returned s c f result d := by
  cases ending with
  | @returns i fetches return_ =>
      obtain ⟨g, top, continues⟩ := fetches.continues
      have nested' : 1 < (c.fetched f i).frames.height := by
        show 1 < (c.frames.modifyTop _).height
        rwa [Stack.height_modifyTop]
      unfold ownTop
      by_cases above : f.stackStart < c.stack.height
      · have above' : f.stackStart < (c.fetched f i).stack.height := above
        obtain ⟨v, latest⟩ := Stack.exists_top? (s := c.stack) (by omega)
        obtain ⟨rest, items⟩ := Stack.top?_eq_some_iff.mp latest
        have items' : (c.fetched f i).stack.items = v :: rest := items
        obtain ⟨d, done, change, stored⟩ :=
          exists_returnFrom (m := (c.fetched f i).drop 1) s v top nested'
        have executed : (c.fetched f i).execute s f i.op i.operand = .done d := by
          simp only [return_, execute, if_pos above', withOne, items', done]
        have change := Returns.of_drop (continues.stackStart ▸ above') change
        rw [if_pos above, latest]
        exact ⟨d, fetches.returned return_ continues executed change
          (stored.trans (remember_memos rfl continues))⟩
      · have above' : ¬ f.stackStart < (c.fetched f i).stack.height := above
        obtain ⟨d, done, change, stored⟩ :=
          exists_returnFrom (m := c.fetched f i) s .null top nested'
        have executed : (c.fetched f i).execute s f i.op i.operand = .done d := by
          simp only [return_, execute, if_neg above', done]
        rw [if_neg above]
        exact ⟨d, fetches.returned return_ continues executed change
          (stored.trans (remember_memos rfl continues))⟩
  | runsOff top end_ =>
      obtain ⟨d, done, change, stored⟩ := exists_returnFrom s .null top nested
      refine ⟨d, ?_, change.stack, change.frames, change.handlers, stored⟩
      unfold Steps step
      simp only [top]
      rw [if_pos end_, endOfCode, if_neg (by omega), done]

/-- When a call began the activation `called` and this activation returns, the caller finds everything as
it was, and the result on top of the values that were left when the operands had been taken: its own
slots and pointer, all lower activations, and all handlers with what they had caught. What happened in
between does not matter, provided that no instruction took one of these values and that no instruction
removed one of these handlers. -/
theorem return_restores_caller (run : Reaches s (m₀.start main) a)
    (executes : a.Executes s caller i b)
    (pushed : b.frames = (a.fetched caller i).frames.push called)
    (between : Relation.ReflTransGen
      (InnerStep s (a.stack.drop (i.operand.toNat + 1)).height a.handlers) b c)
    (same : f.serial = called.serial) (ending : c.Ending f result) :
    ∃ d, Steps s c d ∧ d.stack = (a.stack.drop (i.operand.toNat + 1)).push result ∧
      d.frames = (a.fetched caller i).frames ∧ d.handlers = a.handlers := by
  have inv := reaches_bracketed run
  obtain ⟨call, change⟩ := executes.activates pushed
  have start := (fetched_works a caller i).shrinks inv
  have taken := (Works.drop (a.fetched caller i) (needed i.op i.operand)).shrinks (start.bracketed inv)
  have kept : b.Awaits (a.stack.drop (i.operand.toNat + 1)) (a.fetched caller i).frames a.handlers
      called := by
    have kept := change.suspends (taken.bracketed (start.bracketed inv))
    rw [call] at kept
    exact kept
  obtain ⟨run', kept⟩ := awaits_of_innerSteps (run.tail executes.steps) between kept
  have place := ending.top
  rw [Stack.top?_eq_get?] at place
  have inside := kept.suspends ⟨_, f, place, same⟩
  have position := inside.position_eq (reaches_numbered run') place same
  obtain ⟨g, found, continues⟩ := inside.callee
  rw [← position, place] at found
  cases found
  have start_eq : f.stackStart = (a.stack.drop (i.operand.toNat + 1)).height := by
    rw [continues.stackStart, change.stackStart, call]
    rfl
  have live : 0 < (a.fetched caller i).frames.height := (start.bracketed inv).live
  have lt := inside.callers_lt
  obtain ⟨d, returned⟩ := ending.returned s (by omega)
  refine ⟨d, returned.steps, ?_, ?_, ?_⟩
  · rw [returned.stack, start_eq, inside.values]
  · rw [returned.frames, ← inside.frames, Stack.truncate, ← position]
    congr 1
    omega
  · obtain ⟨inner, items, high⟩ := inside.handlers
    apply Stack.ext
    rw [returned.handlers]
    show c.handlers.items.dropWhile _ = _
    rw [items, topIndex, position, dropWhile_inner kept.lower]
    simp only [List.append_left_eq_self, List.dropWhile_eq_nil_iff, decide_eq_true_eq]
    exact fun h member => (high h member).1

end Machine

/-! ## A call that returns

The main chunk leaves a value, enters a try region and calls a function twice with the same text. The
function throws its argument within a region of its own, catches that, writes over its argument, and
returns the later of two values while its region is still open.
-/

namespace Errand

def main : Chunk :=
  { Chunk.empty with
    code := some #[0x02, 0, 0, 0x70, 0, 0, 0x02, 1, 0, 0x02, 2, 0, 0x50, 1, 0x02, 1, 0, 0x02, 2, 0,
      0x50, 1, 0x51]
    constants := some #[Literal.constant (.bool true), Literal.constant (.string [0x78]),
      Literal.constant (.function 0)]
    regions := some #[⟨some #[⟨22, noIndex, 0⟩], noIndex⟩] }

def body : Chunk :=
  { Chunk.empty with
    code := some #[0x70, 0, 0, 0x10, 0, 0, 0x74, 0x02, 0, 0, 0x11, 0, 0, 0x02, 0, 0, 0x02, 1, 0, 0x51]
    constants := some #[Literal.constant .null, Literal.constant (.string [0x79])]
    regions := some #[⟨some #[⟨7, noIndex, noIndex⟩], noIndex⟩] }

def setup : Setup where
  config := {}
  natives := #[]
  loaded := ⟨0, ⟨some main, #[some ⟨[0x66], 1, none, #[], true, some body⟩]⟩⟩

def fresh : Machine := .new { heap := {}, files := .empty [] }

/-- The machine after some steps. -/
def after (count : Nat) : Machine := (Machine.runSteps setup count (fresh.start main)).2

end Errand

namespace Machine

/-- A call with a value and a handler below it; the function leaves a region open in which it caught a
fault. -/
theorem return_restores_caller_in_errand :
    (Errand.after 12).stack.items = [.string [0x79], .null, .bool true] ∧
      ∃ d, Steps Errand.setup (Errand.after 12) d ∧ d.stack.items = [.string [0x79], .bool true] ∧
        d.handlers = (Errand.after 4).handlers := by
  have inner : ∀ n ∈ [5, 6, 7, 8, 9, 10, 11],
      InnerStep Errand.setup 1 (Errand.after 4).handlers (Errand.after n) (Errand.after (n + 1)) := by
    intro n member
    simp only [List.mem_cons, List.not_mem_nil, or_false] at member
    rcases member with rfl | rfl | rfl | rfl | rfl | rfl | rfl <;>
      exact ⟨spares_of_fetches ⟨rfl, by decide, rfl⟩ (by decide),
        keeps_of_fetches ⟨rfl, by decide, rfl⟩ (by decide), rfl⟩
  have between : Relation.ReflTransGen (InnerStep Errand.setup 1 (Errand.after 4).handlers)
      (Errand.after 5) (Errand.after 12) :=
    ((((((Relation.ReflTransGen.single (inner 5 (by decide))).tail (inner 6 (by decide))).tail
      (inner 7 (by decide))).tail (inner 8 (by decide))).tail (inner 9 (by decide))).tail
      (inner 10 (by decide))).tail (inner 11 (by decide))
  have run : Reaches Errand.setup (Errand.fresh.start Errand.main) (Errand.after 4) :=
    reaches_iff_runSteps.mpr ⟨4, rfl⟩
  have ending : (Errand.after 12).Ending _ _ := .returns ⟨rfl, by decide, rfl⟩ rfl
  obtain ⟨d, next, stack, _, handlers⟩ := return_restores_caller run
    ⟨⟨rfl, by decide, rfl⟩, by decide, rfl⟩ rfl between (by rfl) ending
  exact ⟨rfl, d, next, congrArg Stack.items stack, handlers⟩

end Machine

end TableMachine
