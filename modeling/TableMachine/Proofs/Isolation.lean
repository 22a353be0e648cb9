import TableMachine.Proofs.Returning

/-! # What an instruction leaves alone

Below the values of an activation lie those of its callers, and below its handlers theirs. An instruction
takes its operands from the top of the stack wherever they came from, and one that ends a try region
removes the latest handler whoever entered it. Apart from these operands and that handler, whatever belongs
to the callers stays as it is, and only an instruction that needs more values than the whole stack holds is
refused.
-/

namespace TableMachine

namespace Machine

variable {s : Setup} {m m' m₀ : Machine} {main : Chunk} {frame ended : Frame} {i : Chunk.Instruction}
  {cause : Cause} {p : Nat}

/-- The handlers that other activations than `frame` entered; where `frame` is innermost, lower ones. -/
def others (m : Machine) (frame : Frame) : List Handler :=
  m.handlers.items.filter fun h => h.owner ≠ frame.serial

theorem Fetches.underflow (fetches : m.Fetches frame i) (few : m.stack.height < needed i.op i.operand) :
    m.step s = .failed ((m.fetched frame i).faultAt
      (.underflow i.op.name (needed i.op i.operand) m.stack.height) (frame.chunk.lineAt frame.ip))
      (m.fetched frame i) := by
  have few' : (m.fetched frame i).stack.height < needed i.op i.operand := few
  unfold fetched at few' ⊢
  rw [fetches.step_eq, perform]
  simp only [if_pos few']
  rw [Int.toNat_of_nonneg fetches.pointer]
  rfl

/-! ## Values -/

theorem Executes.get? (executes : m.Executes s frame i m') (low : p < frame.stackStart)
    (spared : p + needed i.op i.operand < m.stack.height) : m'.stack.get? p = m.stack.get? p := by
  have inside : p < m.stack.height - needed i.op i.operand := by omega
  cases executes.completes with
  | works _ change =>
      have kept := change.truncate (k := m.stack.height - needed i.op i.operand)
        (Nat.le_of_eq (Nat.sub_add_cancel executes.enough))
      rw [← Stack.get?_truncate_of_lt inside, kept, Stack.get?_truncate_of_lt inside]
      rfl
  | calls _ change =>
      rw [change.stack]
      exact Stack.get?_drop_of_lt inside
  | enters _ change =>
      rw [change.stack]
      rfl
  | leaves _ change =>
      rw [change.stack]
      rfl
  | returns _ change =>
      obtain ⟨g, top, continues⟩ := executes.fetches.continues
      cases top.symm.trans change.top
      have left : p < ((m.fetched frame i).stack.truncate frame.stackStart).height := by
        rw [Stack.height_truncate]
        exact Nat.lt_min.mpr ⟨Nat.lt_of_lt_of_le inside (Nat.sub_le _ _), low⟩
      rw [change.stack, continues.stackStart, Stack.get?_push_of_lt left, Stack.get?_truncate_of_lt low]
      rfl

theorem Faults.get? (faults : m.Faults s frame i cause m')
    (spared : p + needed i.op i.operand < m.stack.height) : m'.stack.get? p = m.stack.get? p := by
  have inside : p < m.stack.height - needed i.op i.operand := by omega
  rw [faults.raises.stack]
  exact Stack.get?_drop_of_lt inside

/-! ## Handlers -/

private theorem filter_dropWhile {α : Type} {gone kept : α → Bool} {xs : List α}
    (apart : ∀ x ∈ xs, gone x → kept x = false) : (xs.dropWhile gone).filter kept = xs.filter kept := by
  induction xs with
  | nil => rfl
  | cons x xs ih =>
      rw [List.forall_mem_cons] at apart
      rw [List.dropWhile_cons]
      split
      · rename_i first
        rw [ih apart.2, List.filter_cons, apart.1 first]
        rfl
      · rfl

theorem Executes.leaves (executes : m.Executes s frame i m')
    (end_ : i.op = .endTry ∨ i.op = .popHandler) : m'.handlers = m.handlers.drop 1 := by
  have done := executes.done
  rcases end_ with same | same
  · rw [same] at done
    cases done
    exact (endTry_leaves _).handlers
  · rw [same] at done
    cases done
    rfl

theorem Faults.not_end (faults : m.Faults s frame i cause m') : ¬ (i.op = .endTry ∨ i.op = .popHandler) := by
  have raised := faults.raised
  rintro (same | same)
  · rw [same] at raised
    cases raised
  · rw [same] at raised
    cases raised

/-- The handlers that go with the innermost activation are its own. -/
theorem Bracketed.owner_eq (inv : m.Bracketed s) (top : m.frames.top? = some frame) {h : Handler}
    (member : h ∈ m.handlers.items) (high : m.topIndex ≤ h.frameIndex) : h.owner = frame.serial := by
  obtain ⟨f, found, owner, _⟩ := inv.owned h member
  have inside := inv.frameIndex_lt member
  have live := inv.live
  have same : h.frameIndex = m.frames.height - 1 := by
    unfold topIndex at high
    omega
  rw [same, ← Stack.top?_eq_get?, top] at found
  cases found
  exact owner.symm

theorem Executes.others (executes : m.Executes s frame i m') (inv : m.Bracketed s)
    (other : ¬ (i.op = .endTry ∨ i.op = .popHandler)) : m'.others frame = m.others frame := by
  cases executes.completes with
  | works _ change | calls _ change =>
      rw [Machine.others, change.handlers]
      rfl
  | enters _ change =>
      rw [Machine.others, change.handlers, Stack.items_push, List.filter_cons_of_neg (by simp [handlerOf])]
      rfl
  | leaves end_ _ => exact absurd end_ other
  | returns _ change =>
      rw [Machine.others, change.handlers]
      apply filter_dropWhile
      intro h member high
      have height : (m.fetched frame i).topIndex = m.topIndex := by
        simp [topIndex, fetched, modifyFrame]
      rw [height, decide_eq_true_eq] at high
      simp [inv.owner_eq executes.fetches.top member high]

/-- Where the next instruction removes no handler but of its own activation, those of others stay. -/
theorem others_eq (fetches : m.Fetches frame i) (inv : m.Bracketed s)
    (after : m.Executes s frame i m' ∨ ∃ cause, m.Faults s frame i cause m')
    (own : ∀ h, m.Removes h → h.owner = frame.serial) : m'.others frame = m.others frame := by
  rcases after with executes | ⟨cause, faults⟩
  · by_cases end_ : i.op = .endTry ∨ i.op = .popHandler
    · rw [others, executes.leaves end_]
      cases latest : m.handlers.items with
      | nil => simp [others, latest]
      | cons h rest =>
          have mine := own h ⟨frame, i, fetches, end_, by rw [Stack.top?, latest]; rfl⟩
          simp [others, latest, mine]
    · exact executes.others inv end_
  · rw [others, faults.raises.handlers]
    rfl

/-- An instruction that needs more values than the stack holds is refused. Any other, faulting or not,
leaves of the values below its activation all that are not its operands, so all of them if the activation
has the operands itself, and it leaves the handlers of other activations, unless it ends a try region and
the latest handler is one of theirs: this one is then removed. -/
theorem instruction_keeps_callers (run : Reaches s (m₀.start main) m) (fetches : m.Fetches frame i) :
    (m.stack.height < needed i.op i.operand →
      m.step s = .failed ((m.fetched frame i).faultAt
        (.underflow i.op.name (needed i.op i.operand) m.stack.height) (frame.chunk.lineAt frame.ip))
        (m.fetched frame i)) ∧
    ∀ m', (m.Executes s frame i m' ∨ ∃ cause, m.Faults s frame i cause m') →
      (∀ p < frame.stackStart, p + needed i.op i.operand < m.stack.height →
        m'.stack.get? p = m.stack.get? p) ∧
      (∀ h, m.Removes h → h.owner ≠ frame.serial → m'.handlers = m.handlers.drop 1) ∧
      ((∀ h, m.Removes h → h.owner = frame.serial) → m'.others frame = m.others frame) := by
  refine ⟨fun few => ?_, fun m' after => ⟨fun p low spared => ?_, fun h removes other => ?_, ?_⟩⟩
  · exact fetches.underflow few
  · rcases after with executes | ⟨cause, faults⟩
    · exact executes.get? low spared
    · exact faults.get? spared
  · obtain ⟨frame', i', fetches', end_, _⟩ := removes
    cases fetches.top.symm.trans fetches'.top
    cases fetches.instruction.symm.trans fetches'.instruction
    rcases after with executes | ⟨cause, faults⟩
    · exact executes.leaves end_
    · exact absurd end_ faults.not_end
  · exact others_eq fetches (reaches_bracketed run) after

/-- A throw in a called function, with a value and a handler of the caller below. -/
theorem instruction_keeps_callers_in_call :
    ∃ frame cause m', (Sample.after 6).Faults Sample.setup frame ⟨.throw, 0⟩ cause m' ∧
      frame.stackStart = 1 ∧ m'.stack.get? 0 = some (.bool true) ∧
      m'.others frame = (Sample.after 6).others frame ∧ (m'.others frame).length = 1 := by
  have fetches : (Sample.after 6).Fetches _ ⟨.throw, 0⟩ := ⟨rfl, by decide, rfl⟩
  have faults : (Sample.after 6).Faults Sample.setup _ ⟨.throw, 0⟩ _ _ := ⟨fetches, by decide, rfl⟩
  obtain ⟨values, _, handlers⟩ :=
    (instruction_keeps_callers (Sample.reaches_after 6 rfl) fetches).2 _ (.inr ⟨_, faults⟩)
  have same := handlers fun h ⟨_, _, fetches', end_, _⟩ => by
    cases fetches.top.symm.trans fetches'.top
    cases fetches.instruction.symm.trans fetches'.instruction
    simp at end_
  exact ⟨_, _, _, faults, rfl, values 0 (by decide) (by decide), same, by rw [same]; rfl⟩

end Machine

/-! ## What callers do lose

The main chunk leaves a value, enters a try region and calls a function. The function takes a value,
though it has none of its own, and ends a try region, though it is in none.
-/

namespace Intruder

open Machine

def main : Chunk :=
  { Chunk.empty with
    code := some #[0x02, 0, 0, 0x70, 0, 0, 0x02, 1, 0, 0x50, 0, 0x51]
    constants := some #[Literal.constant (.bool true), Literal.constant (.function 0)]
    regions := some #[⟨some #[⟨11, noIndex, noIndex⟩], noIndex⟩] }

def body : Chunk := { Chunk.empty with code := some #[0x01, 0x71, 0x51] }

def setup : Setup where
  config := {}
  natives := #[]
  loaded := ⟨0, ⟨some main, #[some ⟨[0x66], 0, none, #[], false, some body⟩]⟩⟩

def start : Machine := (Machine.new { heap := {}, files := .empty [] }).start main

/-- The machine after some steps. -/
def after (count : Nat) : Machine := (runSteps setup count start).2

theorem callers_lose_value_and_handler :
    Reaches setup start (after 4) ∧ (after 4).frames.height = 2 ∧
    (∃ frame, (after 4).Fetches frame ⟨.pop, 0⟩ ∧ frame.stackStart = 1 ∧ (after 4).stack.height = 1 ∧
      Steps setup (after 4) (after 5) ∧
      (after 4).stack.get? 0 = some (.bool true) ∧ (after 5).stack.get? 0 = none) ∧
    ∃ frame, (after 5).Fetches frame ⟨.endTry, 0⟩ ∧ Steps setup (after 5) (after 6) ∧
      ((after 5).others frame).length = 1 ∧ (after 6).others frame = [] := by
  refine ⟨reaches_iff_runSteps.mpr ⟨4, rfl⟩, rfl, ⟨_, ⟨rfl, by decide, rfl⟩, rfl, rfl, rfl, rfl, rfl⟩, ?_⟩
  exact ⟨_, ⟨rfl, by decide, rfl⟩, rfl, rfl, rfl⟩

end Intruder

end TableMachine
