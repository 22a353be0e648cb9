import Mathlib.Logic.Relation
import TableMachine.Machine.Run
import TableMachine.Proofs.Instruction

/-! # Steps and runs

A step that does not end the run completes an instruction, has the fault of one caught, or returns
from an activation whose code is used up; `Advances` lists what is known in each case. Runs are the
finite sequences of such steps.
-/

/-! ## Reading an instruction -/

namespace TableMachine.Chunk

/-- An instruction that is read is an opcode whose operand bytes the code holds, and what they decode to. -/
theorem instruction?_eq_some {c : Chunk} {offset : Nat} {i : Instruction}
    (found : c.instruction? offset = some i) :
    ∃ byte bytes, c.code.entries[offset]? = some byte ∧ Opcode.ofByte? byte = some i.op ∧
      operandAt? c.code.entries i.op offset = some bytes ∧ i.operand = decodeOperand i.op.isSigned bytes ∧
      bytes.length = i.op.width ∧ offset + i.op.length ≤ c.codeSize := by
  obtain ⟨byte, present, found⟩ := Option.bind_eq_some_iff.mp found
  obtain ⟨op, known, found⟩ := Option.bind_eq_some_iff.mp found
  obtain ⟨bytes, complete, found⟩ := Option.bind_eq_some_iff.mp found
  cases found
  refine ⟨byte, bytes, present, known, complete, rfl, ?_⟩
  unfold operandAt? at complete
  split at complete
  · rename_i inside
    cases complete
    exact ⟨by simp, inside⟩
  · cases complete

end TableMachine.Chunk

namespace TableMachine.Machine

/-- The machine is about to execute the instruction `i` of its innermost activation `frame`. -/
structure Fetches (m : Machine) (frame : Frame) (i : Chunk.Instruction) : Prop where
  top : m.frames.top? = some frame
  pointer : 0 ≤ frame.ip
  instruction : frame.chunk.instruction? frame.ip.toNat = some i

/-- The machine with its innermost pointer past the instruction `i`. -/
def fetched (m : Machine) (frame : Frame) (i : Chunk.Instruction) : Machine :=
  m.modifyFrame fun f => { f with started := frame.ip.toNat, ip := frame.ip.toNat + i.op.length }

/-- The next instruction of the machine has its operands and completes. -/
structure Executes (s : Setup) (m : Machine) (frame : Frame) (i : Chunk.Instruction)
    (m' : Machine) : Prop where
  fetches : m.Fetches frame i
  enough : needed i.op i.operand ≤ m.stack.height
  done : (m.fetched frame i).execute s frame i.op i.operand = .done m'

/-- The next instruction of the machine has its operands and raises a fault. -/
structure Faults (s : Setup) (m : Machine) (frame : Frame) (i : Chunk.Instruction) (cause : Cause)
    (m' : Machine) : Prop where
  fetches : m.Fetches frame i
  enough : needed i.op i.operand ≤ m.stack.height
  raised : (m.fetched frame i).execute s frame i.op i.operand = .raised cause m'

/-- What a step does that does not end the run. -/
inductive Advances (s : Setup) (m : Machine) : Machine → Prop where
  /-- An instruction completed. -/
  | executes {frame i m'} (executes : m.Executes s frame i m') : Advances s m m'
  /-- An instruction raised a fault, and a handler caught it. -/
  | catches {frame i cause raised m'} (faults : m.Faults s frame i cause raised)
      (caught : raised.dispatch cause frame.ip = .caught m') : Advances s m m'
  /-- The code of a function was used up. -/
  | ends {frame ended m'} (top : m.frames.top? = some frame)
      (end_ : frame.chunk.codeSize ≤ frame.ip) (change : m.Returns ended .null m') :
      Advances s m m'

variable {s : Setup} {m m' raised : Machine} {frame : Frame} {i : Chunk.Instruction} {cause : Cause}

/-! ## Fetching -/

theorem fetched_works (m : Machine) (frame : Frame) (i : Chunk.Instruction) :
    m.Works 0 0 (m.fetched frame i) :=
  Works.modifyFrame fun _ => ⟨rfl, rfl, rfl, rfl, rfl⟩

theorem Fetches.continues (fetches : m.Fetches frame i) :
    ∃ g, (m.fetched frame i).frames.top? = some g ∧ frame.Continues g := by
  refine ⟨{ frame with started := frame.ip.toNat, ip := frame.ip.toNat + i.op.length }, ?_,
    ⟨rfl, rfl, rfl, rfl, rfl⟩⟩
  show (m.frames.modifyTop _).top? = _
  rw [Stack.top?_modifyTop, fetches.top]
  rfl

theorem Executes.completes (executes : m.Executes s frame i m') :
    (m.fetched frame i).Completes s frame i.op i.operand m' :=
  execute_done executes.fetches.continues executes.done

theorem Faults.raises (faults : m.Faults s frame i cause raised) :
    (m.fetched frame i).Raises (needed i.op i.operand) raised :=
  execute_raised faults.raised

theorem Faults.ne_return (faults : m.Faults s frame i cause raised) : i.op ≠ .return_ := by
  intro return_
  have executed := faults.raised
  simp only [return_, execute] at executed
  split at executed
  · obtain ⟨v, _, _, executed⟩ := withOne_cases executed (by simp)
    exact absurd executed returnFrom_ne_raised
  · exact absurd executed returnFrom_ne_raised

/-! ## Steps -/

/-- What the effect of the instruction at `site` leads to. -/
def settled (frame : Frame) (site : Int) : Effect → Outcome
  | .done m => .next m
  | .raised cause m => m.raise frame cause site
  | .finished v m => .finished v m
  | .broken => .broken

theorem perform_eq (s : Setup) (m : Machine) (frame : Frame) (i : Chunk.Instruction) :
    m.perform s frame frame.ip.toNat i =
      if m.stack.height < needed i.op i.operand then
        .failed ((m.fetched frame i).faultAt
          (.underflow i.op.name (needed i.op i.operand) m.stack.height)
          (frame.chunk.lineAt frame.ip.toNat)) (m.fetched frame i)
      else settled frame frame.ip.toNat ((m.fetched frame i).execute s frame i.op i.operand) := rfl

theorem perform_advances (fetches : m.Fetches frame i)
    (next : m.perform s frame frame.ip.toNat i = .next m') : m.Advances s m' := by
  unfold perform at next
  simp only at next
  split at next
  · cases next
  · rename_i height
    have enough : needed i.op i.operand ≤ m.stack.height := Nat.le_of_not_lt height
    split at next
    · rename_i done
      cases next
      exact .executes ⟨fetches, enough, done⟩
    · rename_i cause raised executed
      unfold raise at next
      split at next
      · rename_i caught
        cases next
        rw [Int.toNat_of_nonneg fetches.pointer] at caught
        exact .catches ⟨fetches, enough, executed⟩ caught
      · cases next
      · cases next
    · cases next
    · cases next

theorem endOfCode_returns (next : m.endOfCode s = .next m') : ∃ ended, m.Returns ended .null m' := by
  unfold endOfCode at next
  split at next
  · cases next
  · split at next
    · rename_i done
      cases next
      exact returnFrom_done done
    · cases next
    · cases next
    · cases next

theorem step_advances (next : m.step s = .next m') : m.Advances s m' := by
  unfold step at next
  split at next
  · cases next
  · rename_i frame top
    split at next
    · rename_i end_
      obtain ⟨ended, change⟩ := endOfCode_returns next
      exact .ends top end_ change
    · split at next
      · cases next
      · rename_i pointer
        simp only at next
        split at next
        · rename_i i instruction
          exact perform_advances ⟨top, Int.not_lt.mp pointer, instruction⟩ next
        · cases next

/-! ## Runs -/

/-- `m'` comes right after `m` in a run. -/
def Steps (s : Setup) (m m' : Machine) : Prop := m.step s = .next m'

/-- `m'` is reached from `m` by any number of steps. -/
abbrev Reaches (s : Setup) : Machine → Machine → Prop := Relation.ReflTransGen (Steps s)

theorem Fetches.ip_lt (fetches : m.Fetches frame i) : frame.ip < frame.chunk.codeSize := by
  have pointer := fetches.pointer
  obtain ⟨_, _, found, _⟩ := Chunk.instruction?_eq_some fetches.instruction
  have inside : frame.ip.toNat < frame.chunk.codeSize := (Array.getElem?_eq_some_iff.mp found).1
  omega

theorem Fetches.step_eq (fetches : m.Fetches frame i) :
    m.step s = m.perform s frame frame.ip.toNat i := by
  have pointer := fetches.pointer
  have inside := fetches.ip_lt
  unfold step
  simp only [fetches.top, fetches.instruction]
  rw [if_neg (by omega), if_neg (by omega)]

/-- A step moves the pointer past the instruction and executes it with its operand. -/
theorem Fetches.step_eq_execute (fetches : m.Fetches frame i) (enough : needed i.op i.operand ≤ m.stack.height) :
    m.step s = settled frame frame.ip ((m.fetched frame i).execute s frame i.op i.operand) := by
  rw [fetches.step_eq, perform_eq, if_neg (Nat.not_lt.mpr enough), Int.toNat_of_nonneg fetches.pointer]

/-- An instruction that completes is a step. -/
theorem Executes.steps (executes : m.Executes s frame i m') : Steps s m m' := by
  have enough : ¬ (m.fetched frame i).stack.height < needed i.op i.operand :=
    Nat.not_lt.mpr executes.enough
  have done := executes.done
  unfold fetched at done enough
  unfold Steps
  rw [executes.fetches.step_eq]
  unfold perform
  simp only [if_neg enough, done]

/-- So is a fault that a handler catches. -/
theorem Faults.steps (faults : m.Faults s frame i cause raised)
    (caught : raised.dispatch cause frame.ip = .caught m') : Steps s m m' := by
  have enough : ¬ (m.fetched frame i).stack.height < needed i.op i.operand :=
    Nat.not_lt.mpr faults.enough
  have executed := faults.raised
  unfold fetched at executed enough
  unfold Steps
  rw [faults.fetches.step_eq]
  unfold perform
  simp only [if_neg enough, executed]
  unfold raise
  rw [Int.toNat_of_nonneg faults.fetches.pointer, caught]

/-- The machines that a run passes are those that its first steps leave. -/
theorem reaches_iff_runSteps :
    Reaches s m m' ↔ ∃ fuel, runSteps s fuel m = (.unfinished, m') := by
  constructor
  · intro run
    induction run using Relation.ReflTransGen.head_induction_on with
    | refl => exact ⟨0, rfl⟩
    | head next _ ih =>
        obtain ⟨fuel, rest⟩ := ih
        refine ⟨fuel + 1, ?_⟩
        unfold Steps at next
        rw [runSteps, next]
        exact rest
  · rintro ⟨fuel, unfinished⟩
    induction fuel generalizing m with
    | zero =>
        cases unfinished
        exact .refl
    | succ fuel ih =>
        rw [runSteps] at unfinished
        split at unfinished
        · rename_i next
          exact (ih unfinished).head next
        · cases unfinished
        · cases unfinished
        · cases unfinished

end TableMachine.Machine

/-! ## A program to try statements on

The main chunk leaves a value on the stack, enters a try region that catches everything, and calls a
function. The function enters a region that catches missing keys only, and throws.
-/

namespace TableMachine.Sample

open Machine

def main : Chunk :=
  { Chunk.empty with
    code := some #[0x02, 0, 0, 0x70, 0, 0, 0x02, 1, 0, 0x50, 0, 0x71]
    constants := some #[Literal.constant (.bool true), Literal.constant (.function 0)]
    regions := some #[⟨some #[⟨11, noIndex, 0⟩], noIndex⟩] }

def body : Chunk :=
  { Chunk.empty with
    code := some #[0x70, 0, 0, 0x02, 0, 0, 0x74]
    constants := some #[Literal.constant (.string [0x78])]
    regions := some #[⟨some #[⟨7, 0, noIndex⟩], noIndex⟩]
    errorTypes := some #[ErrorType.key.name] }

def setup : Setup where
  config := { maxFrames := 3 }
  natives := #[]
  loaded := ⟨0, ⟨some main, #[some ⟨[0x66], 0, none, #[], false, some body⟩]⟩⟩

/-- The machine before the first step. -/
def start : Machine := (Machine.new { heap := {}, files := .empty [] }).start main

/-- The machine after some steps. -/
def after (count : Nat) : Machine := (runSteps setup count start).2

theorem reaches_after (count : Nat) (running : (runSteps setup count start).1 = .unfinished) :
    Reaches setup start (after count) :=
  reaches_iff_runSteps.mpr ⟨count, Prod.ext running rfl⟩

end TableMachine.Sample
