import TableMachine.Proofs.Dispatch
import TableMachine.Proofs.Transition

/-! # Activations and their handlers

Activations and handlers are two stacks, and four operations cut them: a return, the end of a
function's code, a caught fault and the end of a try region. The invariant `Bracketed` says that they
stay in step: handlers lie in the order of the activations that entered them, and each one's activation
is still at the position the handler remembers. The order is what makes a return drop all handlers of
the ending activation, and only these.

All steps but two only take away: `Shrinks` is that part, and the invariants follow from it once for
all of them. The two others begin an activation and enter a try region.
-/

namespace TableMachine

/-- The handler as it was when its region was entered. Only `fired` ever changes. -/
def Handler.asEntered (h : Handler) : Handler := { h with fired := false }

theorem Handler.fields_of_asEntered {g h : Handler} (same : g.asEntered = h.asEntered) :
    g.region = h.region ∧ g.stackHeight = h.stackHeight ∧ g.frameIndex = h.frameIndex ∧
      g.owner = h.owner ∧ g.serial = h.serial := by
  simp only [asEntered, Handler.mk.injEq] at same
  obtain ⟨region, stackHeight, frameIndex, _, owner, serial⟩ := same
  exact ⟨region, stackHeight, frameIndex, owner, serial⟩

namespace Machine

/-- Handlers and activations match. -/
structure Bracketed (s : Setup) (m : Machine) : Prop where
  /-- There is an activation. -/
  live : 0 < m.frames.height
  /-- The earliest activation, and no other, is that of the main chunk. -/
  rooted : ∀ p f, m.frames.get? p = some f → (f.routine = none ↔ p = 0)
  /-- The limit on activations is kept. -/
  bounded : 0 < s.config.maxFrames → m.frames.height ≤ s.config.maxFrames
  /-- Later handlers belong to activations that are no lower. -/
  ordered : m.handlers.items.Pairwise fun newer older => older.frameIndex ≤ newer.frameIndex
  /-- The activation that entered a region is where its handler says, and lists the region. -/
  owned : ∀ h ∈ m.handlers.items, ∃ f, m.frames.get? h.frameIndex = some f ∧
    f.serial = h.owner ∧ h.region ∈ f.chunk.regions.entries

/-- The numbers of activations and of handlers grow with their positions. -/
structure Numbered (m : Machine) : Prop where
  frames : ∀ p q f g, p < q → m.frames.get? p = some f → m.frames.get? q = some g →
    f.serial < g.serial
  begun : ∀ p f, m.frames.get? p = some f → f.serial ≤ m.activations
  handlers : m.handlers.items.Pairwise fun newer older => older.serial < newer.serial
  entered : ∀ h ∈ m.handlers.items, h.serial < m.regionsEntered

/-- `m'` is `m` with activations and handlers taken away, and the others moved on. -/
structure Shrinks (m m' : Machine) : Prop where
  live : 0 < m'.frames.height
  frames : ∀ p g, m'.frames.get? p = some g → ∃ f, m.frames.get? p = some f ∧ f.Continues g
  handlers : (m'.handlers.items.map Handler.asEntered).Sublist
    (m.handlers.items.map Handler.asEntered)
  owned : ∀ h ∈ m'.handlers.items, h.frameIndex < m'.frames.height
  activations : m'.activations = m.activations
  regionsEntered : m'.regionsEntered = m.regionsEntered

variable {s : Setup} {m m' m₀ : Machine} {main : Chunk} {frame called ended : Frame}
  {op : Opcode} {operand : Int} {region : TryRegion} {taken put : Nat} {h : Handler}

theorem Bracketed.frameIndex_lt (inv : m.Bracketed s) (member : h ∈ m.handlers.items) :
    h.frameIndex < m.frames.height := by
  obtain ⟨f, found, _⟩ := inv.owned h member
  exact Stack.lt_height_of_get? found

/-! ## Steps that take away -/

namespace Shrinks

theorem height_le (shrinks : m.Shrinks m') : m'.frames.height ≤ m.frames.height := by
  have live := shrinks.live
  obtain ⟨g, top⟩ := Stack.exists_get? (p := m'.frames.height - 1) (s := m'.frames) (by omega)
  obtain ⟨f, found, _⟩ := shrinks.frames _ g top
  have inside := Stack.lt_height_of_get? found
  omega

/-- A handler that is left was there before, perhaps without having caught anything. -/
theorem handler (shrinks : m.Shrinks m') (member : h ∈ m'.handlers.items) :
    ∃ g ∈ m.handlers.items, g.asEntered = h.asEntered :=
  List.mem_map.mp (shrinks.handlers.subset (List.mem_map_of_mem member))

theorem trans {m₁ : Machine} (first : m.Shrinks m₁) (second : m₁.Shrinks m') : m.Shrinks m' where
  live := second.live
  frames := by
    intro p g found
    obtain ⟨f₁, before₁, continues₁⟩ := second.frames p g found
    obtain ⟨f, before, continues⟩ := first.frames p f₁ before₁
    exact ⟨f, before, continues.trans continues₁⟩
  handlers := second.handlers.trans first.handlers
  owned := second.owned
  activations := second.activations.trans first.activations
  regionsEntered := second.regionsEntered.trans first.regionsEntered

theorem bracketed (shrinks : m.Shrinks m') (inv : m.Bracketed s) : m'.Bracketed s where
  live := shrinks.live
  rooted := by
    intro p g found
    obtain ⟨f, before, continues⟩ := shrinks.frames p g found
    rw [continues.routine]
    exact inv.rooted p f before
  bounded := by
    intro limited
    have within_ := inv.bounded limited
    have lower := shrinks.height_le
    omega
  ordered := by
    have before : (m.handlers.items.map Handler.asEntered).Pairwise
        fun newer older => older.frameIndex ≤ newer.frameIndex :=
      List.pairwise_map.mpr inv.ordered
    exact List.pairwise_map.mp (before.sublist shrinks.handlers)
  owned := by
    intro h member
    obtain ⟨g, earlier, same⟩ := shrinks.handler member
    obtain ⟨sameRegion, _, sameIndex, sameOwner, _⟩ := Handler.fields_of_asEntered same
    obtain ⟨f', found'⟩ := Stack.exists_get? (shrinks.owned h member)
    obtain ⟨f, found, continues⟩ := shrinks.frames _ f' found'
    obtain ⟨f₀, found₀, serial, listed⟩ := inv.owned g earlier
    rw [sameIndex, found] at found₀
    cases found₀
    exact ⟨f', found', continues.serial.trans (serial.trans sameOwner),
      by rw [continues.chunk, ← sameRegion]; exact listed⟩

theorem numbered (shrinks : m.Shrinks m') (inv : m.Numbered) : m'.Numbered where
  frames := by
    intro p q f g below foundF foundG
    obtain ⟨f₀, beforeF, continuesF⟩ := shrinks.frames p f foundF
    obtain ⟨g₀, beforeG, continuesG⟩ := shrinks.frames q g foundG
    rw [continuesF.serial, continuesG.serial]
    exact inv.frames p q f₀ g₀ below beforeF beforeG
  begun := by
    intro p g found
    obtain ⟨f, before, continues⟩ := shrinks.frames p g found
    rw [continues.serial, shrinks.activations]
    exact inv.begun p f before
  handlers := by
    have before : (m.handlers.items.map Handler.asEntered).Pairwise
        fun newer older => older.serial < newer.serial :=
      List.pairwise_map.mpr inv.handlers
    exact List.pairwise_map.mp (before.sublist shrinks.handlers)
  entered := by
    intro h member
    obtain ⟨g, earlier, same⟩ := shrinks.handler member
    obtain ⟨_, _, _, _, sameSerial⟩ := Handler.fields_of_asEntered same
    rw [← sameSerial, shrinks.regionsEntered]
    exact inv.entered g earlier

end Shrinks

private theorem modifyTop_continues {frames : Stack Frame} {change : Frame → Frame}
    (continues : ∀ f : Frame, f.Continues (change f)) (p : Nat) (g : Frame)
    (found : (frames.modifyTop change).get? p = some g) :
    ∃ f, frames.get? p = some f ∧ f.Continues g := by
  obtain ⟨f, before, ⟨rfl, _⟩ | ⟨rfl, _⟩⟩ := Stack.get?_modifyTop_cases change found
  · exact ⟨g, before, .refl g⟩
  · exact ⟨f, before, continues f⟩

theorem Works.shrinks (change : m.Works taken put m') (inv : m.Bracketed s) : m.Shrinks m' := by
  obtain ⟨move, continues, frames⟩ := change.frames
  refine ⟨?_, ?_, ?_, ?_, change.activations, change.regionsEntered⟩
  · rw [frames, Stack.height_modifyTop]
    exact inv.live
  · rw [frames]
    exact modifyTop_continues continues
  · exact change.handlers ▸ List.Sublist.refl _
  · rw [change.handlers, frames, Stack.height_modifyTop]
    exact fun h => inv.frameIndex_lt

theorem Leaves.shrinks (change : m.Leaves m') (inv : m.Bracketed s) : m.Shrinks m' := by
  obtain ⟨move, continues, frames⟩ := change.frames
  refine ⟨?_, ?_, ?_, ?_, change.activations, change.regionsEntered⟩
  · rw [frames, Stack.height_modifyTop]
    exact inv.live
  · rw [frames]
    exact modifyTop_continues continues
  · rw [change.handlers]
    exact (List.drop_sublist 1 _).map _
  · rw [change.handlers, frames, Stack.height_modifyTop]
    exact fun h member => inv.frameIndex_lt (List.mem_of_mem_drop member)

/-- In a list that falls, everything left after dropping the high items is low. -/
private theorem lt_of_mem_dropWhile {level : Nat} {handlers : List Handler}
    (ordered : handlers.Pairwise fun newer older => older.frameIndex ≤ newer.frameIndex)
    (member : h ∈ handlers.dropWhile fun g => level ≤ g.frameIndex) : h.frameIndex < level := by
  induction handlers with
  | nil => cases member
  | cons g rest ih =>
      obtain ⟨bounds, ordered⟩ := List.pairwise_cons.mp ordered
      rw [List.dropWhile_cons] at member
      split at member
      · exact ih ordered member
      · rename_i low
        have low : g.frameIndex < level := by simpa using low
        rcases List.mem_cons.mp member with rfl | member
        · exact low
        · exact Nat.lt_of_le_of_lt (bounds h member) low

theorem Returns.shrinks {result : Value} (change : m.Returns ended result m')
    (inv : m.Bracketed s) : m.Shrinks m' := by
  have nested := change.nested
  refine ⟨?_, ?_, ?_, ?_, change.activations, change.regionsEntered⟩
  · rw [change.frames, Stack.height_drop]
    omega
  · rw [change.frames]
    exact fun p g found => ⟨g, Stack.get?_of_get?_drop found, .refl g⟩
  · rw [change.handlers]
    exact (List.dropWhile_sublist _).map _
  · rw [change.handlers, change.frames, Stack.height_drop]
    intro h member
    exact lt_of_mem_dropWhile inv.ordered member

theorem resumed_shrinks {older : List Handler} {owner bound : Frame} {newer : List Handler}
    (inv : m.Bracketed s) (handlers : m.handlers.items = newer ++ h :: older)
    (owned : m.frames.get? h.frameIndex = some owner) (continues : owner.Continues bound) :
    m.Shrinks (m.resumed h older bound) := by
  have inside := Stack.lt_height_of_get? owned
  have height : (m.resumed h older bound).frames.height = h.frameIndex + 1 := by
    show ((m.frames.truncate (h.frameIndex + 1)).modifyTop fun _ => bound).height = _
    rw [Stack.height_modifyTop, Stack.height_truncate]
    omega
  have order := inv.ordered
  rw [handlers] at order
  have below := (List.pairwise_cons.mp (List.pairwise_append.mp order).2.1).1
  refine ⟨by omega, ?_, ?_, ?_, rfl, rfl⟩
  · intro p g found
    obtain ⟨f, before, ⟨rfl, _⟩ | ⟨rfl, top⟩⟩ := Stack.get?_modifyTop_cases _ found
    · exact ⟨g, Stack.get?_of_get?_truncate before, .refl g⟩
    · -- The top of what is left is the activation that entered the region.
      rw [Stack.height_truncate] at top
      have atOwner : p = h.frameIndex := by omega
      subst atOwner
      exact ⟨owner, owned, continues⟩
  · show (({ h with fired := true } :: older).map Handler.asEntered).Sublist _
    rw [handlers, List.map_append]
    exact List.sublist_append_right _ ((h :: older).map Handler.asEntered)
  · intro g member
    rw [height]
    rcases List.mem_cons.mp member with rfl | member
    · exact Nat.lt_succ_self _
    · exact Nat.lt_succ_of_le (below g member)

/-! ## Steps that add -/

theorem Activates.bracketed (change : m.Activates s called m') (inv : m.Bracketed s) :
    m'.Bracketed s where
  live := by
    rw [change.frames, Stack.height_push]
    exact Nat.succ_pos _
  rooted := by
    intro p f found
    rw [change.frames] at found
    rcases Stack.get?_push_cases found with ⟨_, before⟩ | ⟨rfl, rfl⟩
    · exact inv.rooted p f before
    · obtain ⟨routine, _, named, _⟩ := change.routine
      have live := inv.live
      rw [named]
      constructor
      · intro unnamed
        cases unnamed
      · omega
  bounded := by
    intro limited
    have room := change.room
    simp only [isFull, limited, decide_true, Bool.true_and, decide_eq_false_iff_not] at room
    rw [change.frames, Stack.height_push]
    omega
  ordered := by
    rw [change.handlers]
    exact inv.ordered
  owned := by
    intro h member
    rw [change.handlers] at member
    obtain ⟨f, found, serial, listed⟩ := inv.owned h member
    refine ⟨f, ?_, serial, listed⟩
    rw [change.frames, Stack.get?_push_of_lt (Stack.lt_height_of_get? found), found]

theorem Activates.numbered (change : m.Activates s called m') (inv : m.Numbered) : m'.Numbered where
  frames := by
    intro p q f g below foundF foundG
    rw [change.frames] at foundF foundG
    rcases Stack.get?_push_cases foundG with ⟨inside, beforeG⟩ | ⟨rfl, rfl⟩
    · rw [Stack.get?_push_of_lt (by omega)] at foundF
      exact inv.frames p q f g below foundF beforeG
    · rw [Stack.get?_push_of_lt below] at foundF
      have earlier := inv.begun p f foundF
      rw [change.serial]
      omega
  begun := by
    intro p f found
    rw [change.frames] at found
    rw [change.activations]
    rcases Stack.get?_push_cases found with ⟨_, before⟩ | ⟨rfl, rfl⟩
    · have earlier := inv.begun p f before
      omega
    · exact Nat.le_of_eq change.serial
  handlers := by
    rw [change.handlers]
    exact inv.handlers
  entered := by
    rw [change.handlers, change.regionsEntered]
    exact inv.entered

theorem Enters.bracketed {current : Frame} (change : m.Enters frame region m')
    (inv : m.Bracketed s) (top : m.frames.top? = some current)
    (continues : frame.Continues current) : m'.Bracketed s where
  live := by
    rw [change.frames]
    exact inv.live
  rooted := by
    rw [change.frames]
    exact inv.rooted
  bounded := by
    rw [change.frames]
    exact inv.bounded
  ordered := by
    rw [change.handlers, Stack.items_push]
    refine List.pairwise_cons.mpr ⟨?_, inv.ordered⟩
    intro h member
    exact Nat.le_sub_one_of_lt (inv.frameIndex_lt member)
  owned := by
    intro h member
    rw [change.handlers, Stack.items_push] at member
    rw [change.frames]
    rcases List.mem_cons.mp member with rfl | member
    · rw [Stack.top?_eq_get?] at top
      exact ⟨current, top, continues.serial, by rw [continues.chunk]; exact change.listed⟩
    · exact inv.owned h member

theorem Enters.numbered (change : m.Enters frame region m') (inv : m.Numbered) : m'.Numbered where
  frames := by
    rw [change.frames]
    exact inv.frames
  begun := by
    rw [change.frames, change.activations]
    exact inv.begun
  handlers := by
    rw [change.handlers, Stack.items_push]
    exact List.pairwise_cons.mpr ⟨inv.entered, inv.handlers⟩
  entered := by
    intro h member
    rw [change.handlers, Stack.items_push] at member
    rw [change.regionsEntered]
    rcases List.mem_cons.mp member with rfl | member
    · exact Nat.lt_succ_self _
    · have earlier := inv.entered h member
      omega

/-! ## Runs -/

/-- Up to its fault, an instruction takes nothing but operands. -/
theorem Faults.shrinks {i : Chunk.Instruction} {cause : Cause} {raised : Machine}
    (faults : m.Faults s frame i cause raised) (inv : m.Bracketed s) : m.Shrinks raised := by
  have start := (fetched_works m frame i).shrinks inv
  exact start.trans (faults.raises.works.shrinks (start.bracketed inv))

theorem Faults.caught_shrinks {i : Chunk.Instruction} {cause : Cause} {raised : Machine}
    (faults : m.Faults s frame i cause raised) (caught : raised.dispatch cause frame.ip = .caught m')
    (inv : m.Bracketed s) : m.Shrinks m' := by
  have raising := faults.shrinks inv
  obtain ⟨h, clause, older, owner, bound, found, owned, entered, rfl⟩ := dispatch_caught caught
  obtain ⟨newer, handlers, _⟩ := catcher?_eq_some_iff.mp found
  exact raising.trans
    (resumed_shrinks (raising.bracketed inv) handlers owned (enterCatch?_continues entered))

/-- What a step does to activations and handlers: it takes away, or it adds one of either to a
machine that has only moved on. -/
theorem Advances.cases (advances : m.Advances s m') (inv : m.Bracketed s) :
    m.Shrinks m' ∨
      (∃ mid called, m.Shrinks mid ∧ mid.Activates s called m') ∨
      ∃ frame i region, m.Executes s frame i m' ∧ i.op = .beginTry ∧
        (m.fetched frame i).Enters frame region m' := by
  cases advances with
  | @executes frame i _ executes =>
      have start := (fetched_works m frame i).shrinks inv
      have inv' := start.bracketed inv
      cases executes.completes with
      | works _ change => exact .inl (start.trans (change.shrinks inv'))
      | calls _ change => exact .inr (.inl ⟨_, _, start.trans ((Works.drop _ _).shrinks inv'), change⟩)
      | enters begin_ change => exact .inr (.inr ⟨frame, i, _, executes, begin_, change⟩)
      | leaves _ change => exact .inl (start.trans (change.shrinks inv'))
      | returns _ change => exact .inl (start.trans (change.shrinks inv'))
  | catches faults caught => exact .inl (faults.caught_shrinks caught inv)
  | ends _ _ change => exact .inl (change.shrinks inv)

theorem Advances.bracketed (advances : m.Advances s m') (inv : m.Bracketed s) : m'.Bracketed s := by
  rcases advances.cases inv with shrinks | ⟨mid, called, shrinks, change⟩ |
    ⟨frame, i, region, executes, _, change⟩
  · exact shrinks.bracketed inv
  · exact change.bracketed (shrinks.bracketed inv)
  · obtain ⟨current, top, continues⟩ := executes.fetches.continues
    have start := (fetched_works m frame i).shrinks inv
    exact change.bracketed (start.bracketed inv) top continues

theorem Advances.numbered (advances : m.Advances s m') (inv : m.Bracketed s) (numbers : m.Numbered) :
    m'.Numbered := by
  rcases advances.cases inv with shrinks | ⟨mid, called, shrinks, change⟩ |
    ⟨frame, i, region, _, _, change⟩
  · exact shrinks.numbered numbers
  · exact change.numbered (shrinks.numbered numbers)
  · exact change.numbered (((fetched_works m frame i).shrinks inv).numbered numbers)

theorem start_bracketed (s : Setup) (m : Machine) (main : Chunk) : (m.start main).Bracketed s where
  live := Nat.one_pos
  rooted := by
    intro p f found
    have inside := Stack.lt_height_of_get? found
    have bottom : p = 0 := Nat.lt_one_iff.mp inside
    subst bottom
    cases found
    exact ⟨fun _ => rfl, fun _ => rfl⟩
  bounded := fun limited => limited
  ordered := List.Pairwise.nil
  owned := by
    intro h member
    cases member

theorem start_numbered (m : Machine) (main : Chunk) : (m.start main).Numbered where
  frames := by
    intro p q f g below foundF foundG
    have inside : q < 1 := Stack.lt_height_of_get? foundG
    omega
  begun := by
    intro p f found
    have inside := Stack.lt_height_of_get? found
    have bottom : p = 0 := Nat.lt_one_iff.mp inside
    subst bottom
    cases found
    exact Nat.le_refl _
  handlers := List.Pairwise.nil
  entered := by
    intro h member
    cases member

theorem reaches_bracketed (run : Reaches s (m₀.start main) m) : m.Bracketed s := by
  induction run with
  | refl => exact start_bracketed s m₀ main
  | tail _ step inv => exact (step_advances step).bracketed inv

theorem reaches_numbered (run : Reaches s (m₀.start main) m) : m.Numbered := by
  induction run with
  | refl => exact start_numbered m₀ main
  | tail run step numbers => exact (step_advances step).numbered (reaches_bracketed run) numbers

/-! ## Where handlers come from -/

/-- A step that leaves the activation at a position alive. -/
def StepsAbove (s : Setup) (level : Nat) (m m' : Machine) : Prop :=
  Steps s m m' ∧ level < m'.frames.height

/-- On the way from `origin` to `m`, the innermost activation `opener` of some machine executed the
instruction that enters a try region and pushed `record`. Since then the stack of activations has
always been higher than the position of `opener`, so nothing else was ever there. -/
def EnteredOnWay (s : Setup) (origin m : Machine) (record : Handler) : Prop :=
  ∃ before after opener i, Reaches s origin before ∧ before.Executes s opener i after ∧
    i.op = .beginTry ∧ after.handlers = before.handlers.push record ∧
    opener.serial = record.owner ∧ before.topIndex = record.frameIndex ∧
    Relation.ReflTransGen (StepsAbove s record.frameIndex) after m

theorem EnteredOnWay.step {origin : Machine} {record : Handler}
    (entered : EnteredOnWay s origin m record) (next : Steps s m m')
    (alive : record.frameIndex < m'.frames.height) : EnteredOnWay s origin m' record := by
  obtain ⟨before, after, opener, i, reached, executes, begin_, pushed, owner, position, way⟩ := entered
  exact ⟨before, after, opener, i, reached, executes, begin_, pushed, owner, position,
    way.tail ⟨next, alive⟩⟩

theorem reaches_entered (run : Reaches s (m₀.start main) m) :
    ∀ h ∈ m.handlers.items, EnteredOnWay s (m₀.start main) m h.asEntered := by
  induction run with
  | refl =>
      intro h member
      cases member
  | @tail m m' run next ih =>
      intro h member
      have inv := reaches_bracketed run
      have alive := (reaches_bracketed (run.tail next)).frameIndex_lt member
      -- A handler that was there before keeps its origin; the step only lengthens the way.
      have older : ∀ g ∈ m.handlers.items, g.asEntered = h.asEntered →
          EnteredOnWay s (m₀.start main) m' h.asEntered := by
        intro g earlier same
        exact (same ▸ ih g earlier).step next alive
      rcases (step_advances next).cases inv with shrinks | ⟨mid, called, shrinks, change⟩ |
        ⟨frame, i, region, executes, begin_, change⟩
      · obtain ⟨g, earlier, same⟩ := shrinks.handler member
        exact older g earlier same
      · rw [change.handlers] at member
        obtain ⟨g, earlier, same⟩ := shrinks.handler member
        exact older g earlier same
      · rw [change.handlers, Stack.items_push] at member
        rcases List.mem_cons.mp member with rfl | earlier
        · refine ⟨m, m', frame, i, run, executes, begin_, change.handlers, rfl, ?_, .refl⟩
          show m.frames.height - 1 = (m.frames.modifyTop _).height - 1
          rw [Stack.height_modifyTop]
        · exact older h earlier rfl

/-- In every state of a run there is an activation, exactly the earliest one is that of the main chunk,
and there are no more than the limit allows. Handlers lie in the order of their activations, and the
activation at the position of a handler is the one that entered its region, which its chunk lists. -/
theorem handlers_match_activations (run : Reaches s (m₀.start main) m) :
    m.Bracketed s ∧ ∀ h ∈ m.handlers.items, h.frameIndex ≤ m.frames.height - 1 ∧
      EnteredOnWay s (m₀.start main) m h.asEntered ∧
      ∀ p f, m.frames.get? p = some f → (f.serial = h.owner ↔ p = h.frameIndex) := by
  have inv := reaches_bracketed run
  have numbers := reaches_numbered run
  refine ⟨inv, fun h member => ?_⟩
  obtain ⟨owner, owned, serial, _⟩ := inv.owned h member
  refine ⟨Nat.le_sub_one_of_lt (inv.frameIndex_lt member), reaches_entered run h member, ?_⟩
  intro p f found
  constructor
  · intro same
    rcases Nat.lt_trichotomy p h.frameIndex with below | equal | above
    · have less := numbers.frames _ _ _ _ below found owned
      omega
    · exact equal
    · have less := numbers.frames _ _ _ _ above owned found
      omega
  · rintro rfl
    rw [owned] at found
    cases found
    exact serial

/-- Two activations, each with a handler. -/
theorem handlers_match_activations_in_call :
    (Sample.after 5).handlers.items.map (·.frameIndex) = [1, 0] ∧
      (Sample.after 5).Bracketed Sample.setup :=
  ⟨rfl, (handlers_match_activations (Sample.reaches_after 5 rfl)).1⟩

end Machine

end TableMachine
