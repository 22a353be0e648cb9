import TableMachine.Proofs.Dispatch
import TableMachine.Proofs.Transition

/-! # What instructions leave alone

Nearly all instructions work on the stacks, the heap and the remembered results. Two do more: one stores a global,
and the call of a native changes the host and takes down what the native declared. A part of a machine that is
none of what the others work on is `Inert`: it is the same after every step, unless one of these two instructions
changes it. So a statement about such a part has to look at these two only.
-/

namespace TableMachine

/-- Whatever the instruction did, this is the part of the machine afterwards. -/
def Effect.Shows {α : Type} (part : Machine → α) (x : α) : Effect → Prop
  | .done m | .raised _ m | .finished _ m => part m = x
  | .broken => True

/-- Whatever the step led to, this is the part of the machine afterwards. -/
def Machine.Outcome.Shows {α : Type} (part : Machine → α) (x : α) : Machine.Outcome → Prop
  | .next m | .finished _ m | .failed _ m => part m = x
  | .broken => True

namespace Machine

/-- The part shows nothing of the stacks and counters, nor of the heap and the remembered results. -/
def Inert {α : Type} (part : Machine → α) : Prop :=
  ∀ (m : Machine) (stack : Stack Value) (frames : Stack Frame) (handlers : Stack Handler)
    (memos : List (MemoKey × Memo)) (heap : Heap) (activations regionsEntered : Nat),
    part { m with
      stack := stack
      frames := frames
      handlers := handlers
      memos := memos
      host := { m.host with heap := heap }
      activations := activations
      regionsEntered := regionsEntered } = part m

variable {α : Type} {part : Machine → α} {x : α} {s : Setup} {m m' : Machine} {frame : Frame}
  {i : Chunk.Instruction} {op : Opcode} {operand : Int}

/-! ## Operands and results -/

theorem withOne_shows {change : Value → Machine → Effect} (each : ∀ v, (change v (m.drop 1)).Shows part x) :
    (m.withOne change).Shows part x := by
  unfold withOne
  split
  · apply each
  · trivial

theorem withTwo_shows {change : Value → Value → Machine → Effect}
    (each : ∀ a b, (change a b (m.drop 2)).Shows part x) : (m.withTwo change).Shows part x := by
  unfold withTwo
  split
  · apply each
  · trivial

namespace Inert

theorem drop (inert : Inert part) (m : Machine) (count : Nat) : part (m.drop count) = part m :=
  inert m _ _ _ _ _ _ _

theorem yield (inert : Inert part) (shown : part m = x) (r : Except Cause Value) :
    (m.yield_ r).Shows part x := by
  cases r with
  | ok v => exact (inert m _ _ _ _ _ _ _).trans shown
  | error cause => exact shown

theorem yieldOn (inert : Inert part) (shown : part m = x) (r : Except Cause (Value × Heap)) :
    (m.yieldOn r).Shows part x := by
  cases r with
  | ok answer => exact (inert m _ _ _ _ _ _ _).trans shown
  | error cause => exact shown

/-! ## Calls and returns -/

theorem activate (inert : Inert part) (shown : part m = x) (routine : Routine) (arguments : List Value) :
    (m.activate s routine arguments).Shows part x := by
  unfold Machine.activate
  split
  · exact shown
  · split
    · rename_i entered
      simp only [enter?, Option.bind_eq_bind, Option.bind_eq_some_iff] at entered
      obtain ⟨_, _, _, _, built⟩ := entered
      cases built
      exact (inert m _ _ _ _ _ _ _).trans shown
    · trivial

theorem callFunction (inert : Inert part) (shown : part m = x) (routine : Routine) (arguments : List Value) :
    (m.callFunction s routine arguments).Shows part x := by
  unfold Machine.callFunction
  split
  · exact inert.activate shown routine arguments
  · simp only [consult]
    split
    · rename_i found
      cases (Prod.mk.inj found).2
      exact (inert m _ _ _ _ _ _ _).trans shown
    · rename_i missed
      cases (Prod.mk.inj missed).2
      exact inert.activate ((inert m _ _ _ _ _ _ _).trans shown) routine arguments

/-- The call of a function leaves the part alone, and so does a call that is refused. -/
theorem call (inert : Inert part) (shown : part m = x) (count : Nat)
    (natives : ∀ index, m.stack.top? = some (.native index) →
      ((m.drop (count + 1)).callNative s index ((m.stack.drop 1).latest count)).Shows part x) :
    (m.call s count).Shows part x := by
  unfold Machine.call
  split
  · trivial
  · rename_i callee top
    simp only
    split
    · exact natives _ top
    · split
      · exact (inert.drop m _).trans shown
      · trivial
      · split
        · exact (inert.drop m _).trans shown
        · exact inert.callFunction ((inert.drop m _).trans shown) _ _
    · exact (inert.drop m _).trans shown

theorem returnFrom (inert : Inert part) (shown : part m = x) (result : Value) :
    (m.returnFrom s result).Shows part x := by
  unfold Machine.returnFrom
  split
  · trivial
  · rename_i ended _
    obtain ⟨memos, remembered⟩ :=
      remember_eq s { m with stack := m.stack.truncate ended.stackStart } ended result
    simp only [remembered]
    split
    · exact (inert m _ _ _ _ _ _ _).trans shown
    · exact (inert m _ _ _ _ _ _ _).trans shown

/-! ## Instructions -/

/-- An instruction leaves the part alone, unless it stores a global or calls a native. -/
theorem execute (inert : Inert part) (shown : part m = x)
    (stores : op = .storeGlobal → ∀ v m', (m.drop 1).storeGlobal? operand v = some m' → part m' = x)
    (natives : op = .call → ∀ index, m.stack.top? = some (.native index) →
      ((m.drop (operand.toNat + 1)).callNative s index ((m.stack.drop 1).latest operand.toNat)).Shows part x) :
    (m.execute s frame op operand).Shows part x := by
  have dropped (count : Nat) : part (m.drop count) = x := (inert.drop m count).trans shown
  unfold Machine.execute
  cases op with
  | nop | catch_ | endCatch => exact shown
  | loadLocal | jump8 | jump16 | jump32 | makeArray | popHandler =>
      exact (inert m _ _ _ _ _ _ _).trans shown
  | constant | loadGlobal =>
      simp only
      split
      · exact (inert m _ _ _ _ _ _ _).trans shown
      · exact shown
  | storeGlobal =>
      apply withOne_shows
      intro v
      split
      · rename_i stored
        exact stores rfl v _ stored
      · trivial
  | storeLocal =>
      apply withOne_shows
      intro v
      split
      · exact (inert m _ _ _ _ _ _ _).trans shown
      · trivial
  | add | sub | mul | div | intDiv | mod | pow | equal | notEqual | greater | less | greaterEqual
  | lessEqual | in_ => exact withTwo_shows fun a b => inert.yield (dropped 2) _
  | negate | arrayLength => exact withOne_shows fun v => inert.yield (dropped 1) _
  | pop | not | throw | clone => exact withOne_shows fun v => (inert m _ _ _ _ _ _ _).trans shown
  | and | or => exact withTwo_shows fun a b => (inert m _ _ _ _ _ _ _).trans shown
  | jumpIfFalse8 | jumpIfFalse16 | jumpIfFalse32 =>
      apply withOne_shows
      intro v
      show part (if _ then _ else _) = x
      split
      · exact dropped 1
      · exact (inert m _ _ _ _ _ _ _).trans shown
  | call => exact inert.call shown _ (natives rfl)
  | return_ =>
      simp only
      split
      · exact withOne_shows fun v => inert.returnFrom (dropped 1) v
      · exact inert.returnFrom shown .null
  | arrayElement => exact withTwo_shows fun a b => inert.yieldOn (dropped 2) _
  | beginTry =>
      simp only [beginTry]
      split
      · exact shown
      · exact (inert m _ _ _ _ _ _ _).trans shown
  | endTry =>
      simp only [endTry]
      split
      · exact shown
      · split
        · exact (inert m _ _ _ _ _ _ _).trans shown
        · exact (inert m _ _ _ _ _ _ _).trans shown

/-! ## Steps -/

theorem raise (inert : Inert part) (shown : part m = x) (frame : Frame) (cause : Cause) (site : Int) :
    (m.raise frame cause site).Shows part x := by
  unfold Machine.raise
  split
  · rename_i caught
    obtain ⟨h, clause, older, owner, bound, _, _, _, rfl⟩ := dispatch_caught caught
    exact (inert m _ _ _ _ _ _ _).trans shown
  · exact shown
  · trivial

theorem settled (inert : Inert part) {e : Effect} (executed : e.Shows part x) (frame : Frame) (site : Int) :
    (settled frame site e).Shows part x := by
  cases e with
  | done | finished => exact executed
  | raised cause m' => exact inert.raise executed frame cause site
  | broken => trivial

theorem endOfCode (inert : Inert part) (m : Machine) : (m.endOfCode s).Shows part (part m) := by
  unfold Machine.endOfCode
  split
  · exact inert m _ _ _ _ _ _ _
  · have returned : (m.returnFrom s .null).Shows part (part m) := inert.returnFrom rfl .null
    cases ended : m.returnFrom s .null with
    | done | finished | raised =>
        rw [ended] at returned
        exact returned
    | broken => trivial

/-- A step leaves the part alone if the instruction does that it executes, where there is one with its operands. -/
theorem step (inert : Inert part) (m : Machine)
    (each : ∀ frame i, m.Fetches frame i → needed i.op i.operand ≤ m.stack.height →
      ((m.fetched frame i).execute s frame i.op i.operand).Shows part (part m)) :
    (m.step s).Shows part (part m) := by
  unfold Machine.step
  split
  · trivial
  · rename_i frame top
    split
    · exact inert.endOfCode m
    · split
      · rfl
      · rename_i pointer
        simp only
        split
        · rename_i i instruction
          rw [perform_eq]
          split
          · exact inert m _ _ _ _ _ _ _
          · rename_i enough
            have fetches : m.Fetches frame i := ⟨top, Int.not_lt.mp pointer, instruction⟩
            exact inert.settled (each frame i fetches (Nat.le_of_not_lt enough)) frame _
        · rfl

end Inert

end Machine

end TableMachine
