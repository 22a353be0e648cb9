import TableMachine.Proofs.Brackets

/-! # A catch restores the stack of its try region

Between the instruction that enters a try region and the fault that its handler catches, calls push and
drop values, activations cut the stack to where they began, and inner handlers cut it to the heights they
remember. None of this reaches below the height of the outer region as long as no instruction takes a
value from there: `Preserves` is the invariant, in which every later handler and every higher activation
remembers a height that is no lower. So the values of that time are still there when the fault is caught,
and cutting the stack leaves exactly these.
-/

namespace TableMachine

namespace Machine

variable {s : Setup} {m m' m₀ a b c d : Machine} {main : Chunk} {frame called ended opener : Frame}
  {i : Chunk.Instruction} {region : TryRegion} {record h : Handler} {base : Stack Value}
  {taken put k p : Nat}

/-! ## What a run takes from the stack -/

/-- The next instruction takes the value at a position as an operand. A return is left out: what it
takes is not below where its activation began. -/
def Takes (m : Machine) (p : Nat) : Prop :=
  ∃ frame i, m.Fetches frame i ∧ i.op ≠ .return_ ∧
    m.stack.height ≤ p + needed i.op i.operand ∧ p < m.stack.height

/-- The next instruction takes none of the lowest `k` values. -/
def Spares (k : Nat) (m : Machine) : Prop := ∀ p < k, ¬ m.Takes p

/-- A step whose instruction takes none of the lowest `k` values. -/
def SparingStep (s : Setup) (k : Nat) (m m' : Machine) : Prop := m.Spares k ∧ Steps s m m'

/-- The next instruction faults, dispatch selects the handler that was pushed as `record`, and `m'` is
the machine right after. -/
def CaughtBy (s : Setup) (m : Machine) (record : Handler) (m' : Machine) : Prop :=
  ∃ frame i cause raised h clause older, m.Faults s frame i cause raised ∧
    raised.catcher? cause.errorType frame.ip raised.handlers.items = some (h, clause, older) ∧
    h.serial = record.serial ∧ raised.dispatch cause frame.ip = .caught m'

theorem Spares.above (spares : m.Spares k) (fetches : m.Fetches frame i)
    (enough : needed i.op i.operand ≤ m.stack.height) (present : k ≤ m.stack.height) :
    k + needed i.op i.operand ≤ m.stack.height := by
  by_cases none_ : needed i.op i.operand = 0
  · omega
  · have plain : i.op ≠ .return_ := fun return_ => none_ (by rw [return_]; rfl)
    have high : ¬ m.stack.height - needed i.op i.operand < k := fun low =>
      spares _ low ⟨frame, i, fetches, plain, by omega, by omega⟩
    omega

theorem spares_of_fetches (fetches : m.Fetches frame i)
    (above : k + needed i.op i.operand ≤ m.stack.height) : m.Spares k := by
  rintro p low ⟨frame', i', fetches', _, taken, _⟩
  cases fetches.top.symm.trans fetches'.top
  cases fetches.instruction.symm.trans fetches'.instruction
  omega

theorem Works.truncate (change : m.Works taken put m') (above : k + taken ≤ m.stack.height) :
    m'.stack.truncate k = m.stack.truncate k := by
  obtain ⟨results, _, stack⟩ := change.stack
  have height := m'.stack.height_eq
  have before := m.stack.height_eq
  rw [stack, List.length_append, List.length_drop] at height
  apply Stack.ext
  show m'.stack.items.drop (m'.stack.height - k) = m.stack.items.drop (m.stack.height - k)
  rw [stack, height, List.drop_append, List.drop_drop, List.drop_eq_nil_of_le (by omega)]
  show List.drop _ _ = _
  congr 1
  omega

/-! ## The invariant -/

/-- The handler pushed as `record` is active. -/
def Holds (m : Machine) (record : Handler) : Prop := ∃ h ∈ m.handlers.items, h.serial = record.serial

/-- The stack `base` is still at the bottom, and nothing that was added after `record` remembers a lower
height. -/
structure Guards (m : Machine) (base : Stack Value) (record : Handler) : Prop where
  values : m.stack.truncate base.height = base
  same : ∀ h ∈ m.handlers.items, h.serial = record.serial → h.stackHeight = base.height ∧
    h.frameIndex = record.frameIndex
  later : ∀ h ∈ m.handlers.items, record.serial < h.serial → base.height ≤ h.stackHeight
  higher : ∀ p f, m.frames.get? p = some f → record.frameIndex < p → base.height ≤ f.stackStart

/-- While the handler is active, the machine guards the values below it. Handlers do not come back, so
nothing needs to be known once it is gone. -/
structure Preserves (m : Machine) (base : Stack Value) (record : Handler) : Prop where
  entered : record.serial < m.regionsEntered
  guards : m.Holds record → m.Guards base record

theorem Guards.height_le (guards : m.Guards base record) : base.height ≤ m.stack.height := by
  have height := congrArg Stack.height guards.values
  rw [Stack.height_truncate] at height
  omega

/-- Where activations and handlers are only taken away, the values are all that has to be shown. -/
theorem Shrinks.preserves (shrinks : m.Shrinks m') (kept : m.Preserves base record)
    (values : m'.Holds record → m.Guards base record →
      m'.stack.truncate base.height = m.stack.truncate base.height) : m'.Preserves base record where
  entered := by
    rw [shrinks.regionsEntered]
    exact kept.entered
  guards := by
    intro holds'
    have holds : m.Holds record := by
      obtain ⟨h, member, serial⟩ := holds'
      obtain ⟨g, earlier, same⟩ := shrinks.handler member
      exact ⟨g, earlier, (Handler.fields_of_asEntered same).2.2.2.2.trans serial⟩
    have guards := kept.guards holds
    refine ⟨(values holds' guards).trans guards.values, ?_, ?_, ?_⟩
    · intro h member serial
      obtain ⟨g, earlier, same⟩ := shrinks.handler member
      obtain ⟨_, sameHeight, sameIndex, _, sameSerial⟩ := Handler.fields_of_asEntered same
      rw [← sameHeight, ← sameIndex]
      exact guards.same g earlier (sameSerial.trans serial)
    · intro h member later
      obtain ⟨g, earlier, same⟩ := shrinks.handler member
      obtain ⟨_, sameHeight, _, _, sameSerial⟩ := Handler.fields_of_asEntered same
      rw [← sameHeight]
      exact guards.later g earlier (by omega)
    · intro p f found higher
      obtain ⟨f₀, before, continues⟩ := shrinks.frames p f found
      rw [continues.stackStart]
      exact guards.higher p f₀ before higher

/-! ## Steps -/

theorem Works.preserves (change : m.Works taken put m') (inv : m.Bracketed s)
    (kept : m.Preserves base record)
    (above : base.height ≤ m.stack.height → base.height + taken ≤ m.stack.height) :
    m'.Preserves base record :=
  (change.shrinks inv).preserves kept fun _ guards => change.truncate (above guards.height_le)

theorem Leaves.preserves (change : m.Leaves m') (inv : m.Bracketed s)
    (kept : m.Preserves base record) : m'.Preserves base record :=
  (change.shrinks inv).preserves kept fun _ _ => by rw [change.stack]

/-- An activation that ends while the handler is active lies above that of the handler, so it began at
a height that is no lower. -/
theorem Returns.preserves {result : Value} (change : m.Returns ended result m') (inv : m.Bracketed s)
    (kept : m.Preserves base record) : m'.Preserves base record := by
  have shrinks := change.shrinks inv
  refine shrinks.preserves kept ?_
  rintro ⟨h, member, serial⟩ guards
  obtain ⟨g, earlier, same⟩ := shrinks.handler member
  obtain ⟨_, _, sameIndex, _, sameSerial⟩ := Handler.fields_of_asEntered same
  have position := (guards.same g earlier (sameSerial.trans serial)).2
  have inside := shrinks.owned h member
  rw [change.frames, Stack.height_drop] at inside
  have top := change.top
  rw [Stack.top?_eq_get?] at top
  have start := guards.higher _ ended top (by omega)
  have height := guards.height_le
  rw [change.stack, Stack.truncate_push (by rw [Stack.height_truncate]; omega),
    Stack.truncate_truncate start]

/-- The handler that catches a fault is the guarded one or a later one, so the stack is not cut below
the guarded height. -/
theorem resumed_preserves {newer older : List Handler} {owner bound : Frame} (inv : m.Bracketed s)
    (numbers : m.Numbered) (handlers : m.handlers.items = newer ++ h :: older)
    (owned : m.frames.get? h.frameIndex = some owner) (continues : owner.Continues bound)
    (kept : m.Preserves base record) : (m.resumed h older bound).Preserves base record := by
  refine (resumed_shrinks inv handlers owned continues).preserves kept ?_
  rintro ⟨g, member, serial⟩ guards
  have member' : h ∈ m.handlers.items := by rw [handlers]; simp
  have order := numbers.handlers
  rw [handlers] at order
  have below := (List.pairwise_cons.mp (List.pairwise_append.mp order).2.1).1
  have high : base.height ≤ h.stackHeight := by
    rcases List.mem_cons.mp member with rfl | member
    · exact Nat.le_of_eq (guards.same h member' serial).1.symm
    · have later := below g member
      exact guards.later h member' (by omega)
  exact Stack.truncate_truncate high

theorem Activates.preserves (change : m.Activates s called m') (kept : m.Preserves base record) :
    m'.Preserves base record where
  entered := by
    rw [change.regionsEntered]
    exact kept.entered
  guards := by
    rintro ⟨h, member, serial⟩
    rw [change.handlers] at member
    have guards := kept.guards ⟨h, member, serial⟩
    refine ⟨?_, ?_, ?_, ?_⟩
    · rw [change.stack]
      exact guards.values
    · rw [change.handlers]
      exact guards.same
    · rw [change.handlers]
      exact guards.later
    · intro p f found higher
      rw [change.frames] at found
      rcases Stack.get?_push_cases found with ⟨_, before⟩ | ⟨rfl, rfl⟩
      · exact guards.higher p f before higher
      · rw [change.stackStart]
        exact guards.height_le

theorem Enters.preserves (change : m.Enters frame region m') (kept : m.Preserves base record) :
    m'.Preserves base record where
  entered := by
    rw [change.regionsEntered]
    exact Nat.lt_succ_of_lt kept.entered
  guards := by
    have entered := kept.entered
    rintro ⟨h, member, serial⟩
    rw [change.handlers, Stack.items_push] at member
    have held : m.Holds record := by
      rcases List.mem_cons.mp member with rfl | earlier
      · have newest : m.regionsEntered = record.serial := serial
        omega
      · exact ⟨h, earlier, serial⟩
    have guards := kept.guards held
    refine ⟨?_, ?_, ?_, ?_⟩
    · rw [change.stack]
      exact guards.values
    · intro g member serial
      rw [change.handlers, Stack.items_push] at member
      rcases List.mem_cons.mp member with rfl | earlier
      · have newest : m.regionsEntered = record.serial := serial
        omega
      · exact guards.same g earlier serial
    · intro g member later
      rw [change.handlers, Stack.items_push] at member
      rcases List.mem_cons.mp member with rfl | earlier
      · exact guards.height_le
      · exact guards.later g earlier later
    · rw [change.frames]
      exact guards.higher

theorem fetched_preserves (m : Machine) (frame : Frame) (i : Chunk.Instruction) (inv : m.Bracketed s)
    (kept : m.Preserves base record) : (m.fetched frame i).Preserves base record :=
  (fetched_works m frame i).preserves inv kept fun present => present

theorem Executes.preserves (executes : m.Executes s frame i m') (inv : m.Bracketed s)
    (spares : m.Spares base.height) (kept : m.Preserves base record) : m'.Preserves base record := by
  have inv' := ((fetched_works m frame i).shrinks inv).bracketed inv
  have kept' := fetched_preserves m frame i inv kept
  have above := spares.above executes.fetches executes.enough
  cases executes.completes with
  | works _ change => exact change.preserves inv' kept' above
  | calls _ change => exact change.preserves ((Works.drop _ _).preserves inv' kept' above)
  | enters _ change => exact change.preserves kept'
  | leaves _ change => exact change.preserves inv' kept'
  | returns _ change => exact change.preserves inv' kept'

/-- An instruction that faults has only taken its operands. -/
theorem Faults.preserves {cause : Cause} {raised : Machine} (faults : m.Faults s frame i cause raised)
    (inv : m.Bracketed s) (spares : m.Spares base.height) (kept : m.Preserves base record) :
    raised.Preserves base record := by
  have inv' := ((fetched_works m frame i).shrinks inv).bracketed inv
  have above := spares.above faults.fetches faults.enough
  exact faults.raises.works.preserves inv' (fetched_preserves m frame i inv kept) above

theorem Advances.preserves (advances : m.Advances s m') (inv : m.Bracketed s) (numbers : m.Numbered)
    (spares : m.Spares base.height) (kept : m.Preserves base record) : m'.Preserves base record := by
  cases advances with
  | executes executes => exact executes.preserves inv spares kept
  | catches faults caught =>
      have shrinks := faults.shrinks inv
      obtain ⟨h, clause, older, owner, bound, found, owned, entered, rfl⟩ := dispatch_caught caught
      obtain ⟨newer, handlers, _⟩ := catcher?_eq_some_iff.mp found
      exact resumed_preserves (shrinks.bracketed inv) (shrinks.numbered numbers) handlers owned
        (enterCatch?_continues entered) (faults.preserves inv spares kept)
  | ends _ _ change => exact change.preserves inv kept

/-! ## The run from the try region to the catch -/

/-- Right after a region was entered, the whole stack lies below it and nothing is later or higher. -/
theorem Enters.guards (change : m.Enters frame region m') (numbers : m.Numbered) :
    m'.Preserves m.stack (m.handlerOf frame region) where
  entered := by
    rw [change.regionsEntered]
    exact Nat.lt_succ_self _
  guards := by
    intro _
    have fresh : ∀ h ∈ m'.handlers.items, h = m.handlerOf frame region ∨
        h.serial < m.regionsEntered := by
      intro h member
      rw [change.handlers, Stack.items_push] at member
      exact (List.mem_cons.mp member).imp_right (numbers.entered h)
    have newest : (m.handlerOf frame region).serial = m.regionsEntered := rfl
    refine ⟨?_, ?_, ?_, ?_⟩
    · rw [change.stack]
      exact Stack.truncate_of_height_le (Nat.le_refl _)
    · intro h member serial
      rcases fresh h member with rfl | earlier
      · exact ⟨rfl, rfl⟩
      · omega
    · intro h member later
      rcases fresh h member with rfl | earlier
      · exact Nat.le_refl _
      · omega
    · intro p f found higher
      rw [change.frames] at found
      have inside := Stack.lt_height_of_get? found
      have top : m.frames.height - 1 < p := higher
      omega

/-- The instruction that pushed a handler entered a region. -/
theorem Executes.enters (executes : a.Executes s opener i b) (begin_ : i.op = .beginTry)
    (pushed : b.handlers = a.handlers.push record) :
    ∃ region, (a.fetched opener i).Enters opener region b ∧
      record = (a.fetched opener i).handlerOf opener region := by
  have items := congrArg Stack.items pushed
  rw [Stack.items_push] at items
  cases executes.completes with
  | works _ change =>
      rw [change.handlers] at items
      exact absurd (congrArg List.length items) (by simp [fetched, modifyFrame])
  | calls call _ => cases begin_.symm.trans call
  | @enters region _ _ change =>
      rw [change.handlers, Stack.items_push] at items
      exact ⟨region, change, (List.cons.inj items).1.symm⟩
  | leaves end_ _ =>
      rw [begin_] at end_
      rcases end_ with end_ | end_ <;> cases end_
  | returns return_ _ => cases begin_.symm.trans return_

theorem preserves_of_sparingSteps (run : Reaches s (m₀.start main) b)
    (between : Relation.ReflTransGen (SparingStep s base.height) b c)
    (kept : b.Preserves base record) : Reaches s (m₀.start main) c ∧ c.Preserves base record := by
  induction between with
  | refl => exact ⟨run, kept⟩
  | tail _ step ih =>
      obtain ⟨spares, next⟩ := step
      obtain ⟨run, kept⟩ := ih
      exact ⟨run.tail next, (step_advances next).preserves (reaches_bracketed run)
        (reaches_numbered run) spares kept⟩

/-- When a try region was entered with `a.stack` on the stack and its handler catches a fault, exactly
these values are left, whatever happened between, provided that no instruction took one of them. -/
theorem catch_restores_stack (run : Reaches s (m₀.start main) a) (executes : a.Executes s opener i b)
    (begin_ : i.op = .beginTry) (pushed : b.handlers = a.handlers.push record)
    (between : Relation.ReflTransGen (SparingStep s a.stack.height) b c)
    (spares : c.Spares a.stack.height) (caught : c.CaughtBy s record d) : d.stack = a.stack := by
  have inv := reaches_bracketed run
  obtain ⟨region, change, rfl⟩ := executes.enters begin_ pushed
  have start := (fetched_works a opener i).shrinks inv
  have kept := change.guards (start.numbered (reaches_numbered run))
  obtain ⟨run', kept⟩ := preserves_of_sparingSteps (run.tail executes.steps) between kept
  obtain ⟨frame, j, cause, raised, h, clause, older, faults, found, serial, caught⟩ := caught
  have kept := faults.preserves (reaches_bracketed run') spares kept
  obtain ⟨newer, handlers, _⟩ := catcher?_eq_some_iff.mp found
  have member : h ∈ raised.handlers.items := by rw [handlers]; simp
  have guards := kept.guards ⟨h, member, serial⟩
  obtain ⟨h', _, _, _, bound, found', _, _, rfl⟩ := dispatch_caught caught
  cases found.symm.trans found'
  show raised.stack.truncate h.stackHeight = _
  rw [(guards.same h member serial).1]
  exact guards.values

/-- A call, an inner try region and a fault in the called function. -/
theorem catch_restores_stack_in_call :
    (Sample.after 1).stack.items = [.bool true] ∧
      (Sample.after 7).stack = (Sample.after 1).stack := by
  have sparing : ∀ n ∈ [2, 3, 4, 5],
      SparingStep Sample.setup 1 (Sample.after n) (Sample.after (n + 1)) := by
    intro n member
    simp only [List.mem_cons, List.not_mem_nil, or_false] at member
    rcases member with rfl | rfl | rfl | rfl <;>
      exact ⟨spares_of_fetches ⟨rfl, by decide, rfl⟩ (by decide), rfl⟩
  have between :
      Relation.ReflTransGen (SparingStep Sample.setup 1) (Sample.after 2) (Sample.after 6) :=
    (((Relation.ReflTransGen.single (sparing 2 (by decide))).tail (sparing 3 (by decide))).tail
      (sparing 4 (by decide))).tail (sparing 5 (by decide))
  have caught : (Sample.after 6).CaughtBy Sample.setup
      ((Sample.after 1).handlerOf (.root Sample.main) ⟨some #[⟨11, noIndex, 0⟩], noIndex⟩)
      (Sample.after 7) :=
    ⟨_, _, _, _, _, _, _, ⟨⟨rfl, by decide, rfl⟩, by decide, rfl⟩, rfl, rfl, rfl⟩
  exact ⟨rfl, catch_restores_stack (Sample.reaches_after 1 rfl)
    ⟨⟨rfl, by decide, rfl⟩, by decide, rfl⟩ rfl rfl between
    (spares_of_fetches ⟨rfl, by decide, rfl⟩ (by decide)) caught⟩

end Machine

end TableMachine
