import TableMachine.Proofs.Catching

/-! # Faults from within a catch block

What a catch block raises is not for the handler it belongs to. Dispatch finds out by the offset at which the
fault was raised, and that is an offset of the innermost activation. An activation that has called a function from
one of its catch blocks is in that block just as well: it waits at the call, and the offset of the call is on
record. That record is not asked. So a handler is passed over if the fault was raised by its own activation, and if
it was raised further up, the handler is one like any other, and can be entered once more.
-/

namespace TableMachine

/-- The activation has called a function and waits for it: its pointer is right behind the call. -/
def Frame.AtCall (f : Frame) : Prop :=
  ∃ i, 0 ≤ f.started ∧ f.chunk.instruction? f.started.toNat = some i ∧ i.op = .call ∧
    f.ip = f.started + i.op.length

namespace Machine

variable {s : Setup} {m m' m₀ raised : Machine} {main : Chunk} {frame owner : Frame} {i : Chunk.Instruction}
  {cause : Cause} {site : Int} {h : Handler}

/-! ## Activations that wait -/

/-- All activations but the innermost wait at calls. -/
def CallersWait (m : Machine) : Prop :=
  ∀ p f, p + 1 < m.frames.height → m.frames.get? p = some f → f.AtCall

/-- Nothing but a call puts an activation under another one. -/
theorem CallersWait.of_lower (waiting : m.CallersWait) (height : m'.frames.height ≤ m.frames.height)
    (lower : ∀ p, p + 1 < m'.frames.height → m'.frames.get? p = m.frames.get? p) : m'.CallersWait := by
  intro p f below found
  rw [lower p below] at found
  exact waiting p f (Nat.lt_of_lt_of_le below height) found

theorem CallersWait.modifyTop {change : Frame → Frame} (waiting : m.CallersWait)
    (frames : m'.frames = m.frames.modifyTop change) : m'.CallersWait := by
  have height : m'.frames.height = m.frames.height := by rw [frames, Stack.height_modifyTop]
  apply waiting.of_lower (Nat.le_of_eq height)
  intro p below
  rw [frames, Stack.get?_modifyTop_of_lt _ (by omega)]

theorem CallersWait.drop (waiting : m.CallersWait) (frames : m'.frames = m.frames.drop 1) :
    m'.CallersWait := by
  have height : m'.frames.height = m.frames.height - 1 := by rw [frames, Stack.height_drop]
  apply waiting.of_lower (by omega)
  intro p below
  rw [frames, Stack.get?_drop_of_lt (by omega)]

theorem CallersWait.resumed {older : List Handler} {bound : Frame} (waiting : m.CallersWait) :
    (m.resumed h older bound).CallersWait := by
  have height : (m.resumed h older bound).frames.height = min m.frames.height (h.frameIndex + 1) := by
    show ((m.frames.truncate (h.frameIndex + 1)).modifyTop _).height = _
    rw [Stack.height_modifyTop, Stack.height_truncate]
  apply waiting.of_lower (by omega)
  intro p below
  show ((m.frames.truncate (h.frameIndex + 1)).modifyTop _).get? p = _
  rw [Stack.get?_modifyTop_of_lt _ (by rw [Stack.height_truncate]; omega),
    Stack.get?_truncate_of_lt (by omega)]

theorem Fetches.top_fetched (fetches : m.Fetches frame i) :
    (m.fetched frame i).frames.top? =
      some { frame with started := frame.ip.toNat, ip := frame.ip.toNat + i.op.length } := by
  show (m.frames.modifyTop _).top? = _
  rw [Stack.top?_modifyTop, fetches.top]
  rfl

theorem Fetches.callersWait_push {called : Frame} (fetches : m.Fetches frame i) (call : i.op = .call)
    (waiting : (m.fetched frame i).CallersWait)
    (frames : m'.frames = (m.fetched frame i).frames.push called) : m'.CallersWait := by
  intro p f below found
  rw [frames, Stack.height_push] at below
  rw [frames, Stack.get?_push_of_lt (by omega)] at found
  -- The one that is newly under another is the caller; the rest waited before.
  by_cases lower : p + 1 < (m.fetched frame i).frames.height
  · exact waiting p f lower found
  · have innermost : p = (m.fetched frame i).frames.height - 1 := by omega
    rw [innermost, ← Stack.top?_eq_get?, fetches.top_fetched] at found
    cases found
    exact ⟨i, Int.natCast_nonneg _, fetches.instruction, call, rfl⟩

theorem Advances.callersWait (advances : m.Advances s m') (waiting : m.CallersWait) : m'.CallersWait := by
  cases advances with
  | @executes frame i _ executes =>
      have waiting' : (m.fetched frame i).CallersWait := waiting.modifyTop rfl
      cases executes.completes with
      | works _ change | leaves _ change =>
          obtain ⟨_, _, frames⟩ := change.frames
          exact waiting'.modifyTop frames
      | calls call change => exact executes.fetches.callersWait_push call waiting' change.frames
      | enters _ change =>
          have frames : m'.frames = (m.fetched frame i).frames := change.frames
          exact fun p f => frames ▸ waiting' p f
      | returns _ change => exact waiting'.drop change.frames
  | @catches frame i _ raised _ faults caught =>
      have waiting' : (m.fetched frame i).CallersWait := waiting.modifyTop rfl
      have frames : raised.frames = (m.fetched frame i).frames := faults.raises.frames
      have waiting'' : raised.CallersWait := fun p f => frames ▸ waiting' p f
      obtain ⟨h, clause, older, owner, bound, _, _, _, rfl⟩ := dispatch_caught caught
      exact waiting''.resumed
  | ends _ _ change => exact waiting.drop change.frames

theorem reaches_callersWait (run : Reaches s (m₀.start main) m) : m.CallersWait := by
  induction run with
  | refl =>
      intro p f below
      have alone : (m₀.start main).frames.height = 1 := rfl
      omega
  | tail _ step waiting => exact (step_advances step).callersWait waiting

/-! ## The handler that dispatch takes -/

/-- Dispatch takes the handler `h` for a fault raised at `site`. -/
def Selects (m : Machine) (cause : Cause) (site : Int) (h : Handler) : Prop :=
  ∃ clause older, m.catcher? cause.errorType site m.handlers.items = some (h, clause, older)

theorem selects_iff (inv : m.Bracketed s) (numbers : m.Numbered) (active : h ∈ m.handlers.items) :
    m.Selects cause site h ↔ m.Catchable cause.errorType site h ∧
      ∀ g ∈ m.handlers.items, h.serial < g.serial → ¬ m.Catchable cause.errorType site g := by
  have inside : ∀ g ∈ m.handlers.items, g.frameIndex ≤ m.topIndex := fun g member =>
    Nat.le_sub_one_of_lt (inv.frameIndex_lt member)
  -- Handlers are listed latest first, so those asked before `h` are those with a higher number.
  constructor
  · rintro ⟨clause, older, found⟩
    obtain ⟨newer, handlers, passed, offered⟩ := catcher?_eq_some_iff.mp found
    obtain ⟨owner, offers⟩ := (clauseFor?_eq_some_iff (inside h active)).mp offered
    refine ⟨offers.catchable, fun g member later => ?_⟩
    have order := numbers.handlers
    rw [handlers] at order
    have earlier := (List.pairwise_cons.mp (List.pairwise_append.mp order).2.1).1
    have split := member
    rw [handlers] at split
    rcases List.mem_append.mp split with above | below
    · exact (clauseFor?_eq_none_iff (inside g member)).mp (passed g above)
    · rcases List.mem_cons.mp below with rfl | below
      · exact absurd later (Nat.lt_irrefl _)
      · exact absurd later (Nat.lt_asymm (earlier g below))
  · rintro ⟨catchable, latest⟩
    obtain ⟨newer, older, handlers⟩ := List.append_of_mem active
    have order := numbers.handlers
    rw [handlers] at order
    have later := (List.pairwise_append.mp order).2.2
    cases offered : m.clauseFor? cause.errorType site h with
    | none => exact absurd catchable ((clauseFor?_eq_none_iff (inside h active)).mp offered)
    | some clause =>
        refine ⟨clause, older, catcher?_eq_some_iff.mpr ⟨newer, handlers, fun g above => ?_, offered⟩⟩
        have member : g ∈ m.handlers.items := by
          rw [handlers]
          exact List.mem_append_left _ above
        exact (clauseFor?_eq_none_iff (inside g member)).mpr
          (latest g member (later g above h List.mem_cons_self))

/-! ## Catch blocks that raise -/

/-- What the innermost activation raises is raised at the offset that it has on record. -/
theorem Faults.started_eq (faults : m.Faults s frame i cause raised)
    (top : raised.frames.top? = some owner) : owner.started = frame.ip := by
  rw [faults.raises.frames, faults.fetches.top_fetched] at top
  cases top
  exact Int.toNat_of_nonneg faults.fetches.pointer

/-- Let an instruction raise a fault while the activation that owns an active handler is in one of the
handler's catch blocks. If that activation is the innermost, the block raised the fault itself, and dispatch
passes the handler over. Otherwise the activation waits at a call that it made in the block, and dispatch takes
the handler once more whenever one of its clauses matches and no later handler can catch the fault. -/
theorem own_fault_selects_iff (run : Reaches s (m₀.start main) m)
    (faults : m.Faults s frame i cause raised) (active : h ∈ raised.handlers.items)
    (owned : raised.frames.get? h.frameIndex = some owner) (inside : h.region.Covers owner.started) :
    (h.frameIndex = raised.topIndex →
      owner.started = frame.ip ∧ ¬ raised.Selects cause frame.ip h) ∧
    (h.frameIndex ≠ raised.topIndex → owner.AtCall ∧
      (raised.Selects cause frame.ip h ↔
        (∃ clause ∈ h.region.clauses, clause.Matches owner.chunk.errorTypes.entries cause.errorType) ∧
        ∀ g ∈ raised.handlers.items, h.serial < g.serial →
          ¬ raised.Catchable cause.errorType frame.ip g)) := by
  have inv := reaches_bracketed run
  have shrinks := faults.shrinks inv
  have inv' := shrinks.bracketed inv
  have selects : raised.Selects cause frame.ip h ↔ _ :=
    selects_iff inv' (shrinks.numbered (reaches_numbered run)) active
  constructor
  · intro innermost
    have top : raised.frames.top? = some owner := by
      rw [innermost] at owned
      exact Stack.top?_eq_get?.trans owned
    have started := faults.started_eq top
    refine ⟨started, fun selected => ?_⟩
    exact (selects.mp selected).1.1 ⟨innermost, started ▸ inside⟩
  · intro suspended
    have position : h.frameIndex + 1 < raised.frames.height := by
      have live := inv'.frameIndex_lt active
      unfold topIndex at suspended
      omega
    -- The guard compares the site with the catch blocks of the innermost activation only.
    have eligible : raised.Eligible frame.ip h := fun ⟨innermost, _⟩ => suspended innermost
    constructor
    · have waiting : (m.fetched frame i).CallersWait := (reaches_callersWait run).modifyTop rfl
      rw [faults.raises.frames] at position owned
      exact waiting _ _ position owned
    · have catchable : raised.Catchable cause.errorType frame.ip h ↔
          ∃ clause ∈ h.region.clauses, clause.Matches owner.chunk.errorTypes.entries cause.errorType := by
        constructor
        · rintro ⟨_, other, found, matches_⟩
          cases owned.symm.trans found
          exact matches_
        · exact fun matches_ => ⟨eligible, owner, owned, matches_⟩
      rw [selects, catchable]

end Machine

/-! ## A handler that is entered twice

The main chunk throws a text in a try region. The clause for runtime errors calls a function from its catch
block, and the function negates a truth value. That is a type error, which the other clause of the same region
takes.
-/

namespace Relapse

open Machine

def region : TryRegion := ⟨some #[⟨7, 0, noIndex⟩, ⟨13, noIndex, noIndex⟩], noIndex⟩

def main : Chunk :=
  { Chunk.empty with
    code := some #[0x70, 0, 0, 0x02, 0, 0, 0x74, 0x02, 1, 0, 0x50, 0, 0x51, 0x02, 2, 0, 0x51]
    constants := some #[Literal.constant (.string [0x61]), Literal.constant (.function 0),
      Literal.constant (.string [0x62])]
    regions := some #[region]
    errorTypes := some #[ErrorType.runtime.name] }

def body : Chunk :=
  { Chunk.empty with
    code := some #[0x02, 0, 0, 0x27]
    constants := some #[Literal.constant (.bool true)] }

def setup : Setup where
  config := {}
  natives := #[]
  loaded := ⟨0, ⟨some main, #[some ⟨[0x66], 0, none, #[], false, some body⟩]⟩⟩

def start : Machine := (Machine.new { heap := {}, files := .empty [] }).start main

def after (count : Nat) : Machine := (runSteps setup count start).2

/-- The handler of the region, in whose first catch block the main chunk is. -/
def handler : Handler := ⟨region, 0, 0, true, 0, 0⟩

end Relapse

namespace Machine

theorem own_fault_selects_iff_in_relapse :
    ∃ frame i cause raised owner, Reaches Relapse.setup Relapse.start (Relapse.after 6) ∧
      (Relapse.after 6).Faults Relapse.setup frame i cause raised ∧
      Relapse.handler ∈ raised.handlers.items ∧
      raised.frames.get? Relapse.handler.frameIndex = some owner ∧ owner.AtCall ∧
      Relapse.handler.region.Covers owner.started ∧ raised.Selects cause frame.ip Relapse.handler := by
  have run : Reaches Relapse.setup Relapse.start (Relapse.after 6) := reaches_iff_runSteps.mpr ⟨6, rfl⟩
  have faults : ∃ frame i cause raised, (Relapse.after 6).Faults Relapse.setup frame i cause raised ∧
      cause.errorType = .type ∧ raised.topIndex = 1 ∧ raised.handlers.items = [Relapse.handler] ∧
      ∃ owner, raised.frames.get? 0 = some owner ∧ owner.started = 10 :=
    ⟨_, _, _, _, ⟨⟨rfl, by decide, rfl⟩, by decide, rfl⟩, rfl, rfl, rfl, _, rfl, rfl⟩
  obtain ⟨frame, i, cause, raised, faults, type_, top, handlers, owner, owned, started⟩ := faults
  have active : Relapse.handler ∈ raised.handlers.items := by simp [handlers]
  have inside : Relapse.handler.region.Covers owner.started := by
    rw [started]
    exact ⟨0, ⟨7, 0, noIndex⟩, rfl, by decide, (by decide : (10 : Int) < 13)⟩
  obtain ⟨_, suspended⟩ := own_fault_selects_iff run faults active owned inside
  obtain ⟨waits, selects⟩ := suspended (by rw [top]; decide)
  refine ⟨frame, i, cause, raised, owner, run, faults, active, owned, waits, inside, selects.mpr ⟨?_, ?_⟩⟩
  · exact ⟨⟨13, noIndex, noIndex⟩, by decide, .inl rfl⟩
  · intro g member later
    rw [handlers, List.mem_singleton] at member
    subst member
    exact absurd later (Nat.lt_irrefl _)

end Machine

end TableMachine
