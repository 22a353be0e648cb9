import TableMachine.Proofs.Isolation

/-! # The opcode table and the stack

The table of opcodes says how many values an instruction takes from the stack and how many it puts there,
and steps rely on it to refuse an instruction that has too few. Here every instruction but a return is held
to its entry: the values below those it takes stay where they are, on top of them come as many as the table
says, and a fault comes after the operands are gone and before anything is put. A call counts as putting its
result only if it has it at once; where it begins an activation, the return puts it.
-/

namespace TableMachine

/-- The number of values that the table, or where it leaves that open the operand, has an instruction
take. -/
def Opcode.taken (op : Opcode) (operand : Int) : Nat :=
  match op.pops with
  | some count => count
  | none => if op = .call then operand.toNat + 1 else operand.toNat

namespace Machine

variable {s : Setup} {m m' : Machine} {frame : Frame} {i : Chunk.Instruction} {op : Opcode} {operand : Int}
  {cause : Cause} {taken put : Nat}

/-- What a step checks for is what the table says, but for a return, which does without a value. -/
theorem needed_eq_taken (plain : op ≠ .return_) : needed op operand = op.taken operand := by
  cases op <;> first | rfl | exact absurd rfl plain

/-! ## Exchanged values -/

/-- The stack of `m'` is that of `m` with its `taken` latest values gone and `put` others above the rest. -/
structure Exchanges (m : Machine) (taken put : Nat) (m' : Machine) : Prop where
  kept : ∀ p < m.stack.height - taken, m'.stack.get? p = m.stack.get? p
  height : m'.stack.height = m.stack.height - taken + put

namespace Exchanges

theorem of_stack_eq (same : m'.stack = m.stack) : m.Exchanges 0 0 m' where
  kept := fun _ _ => by rw [same]
  height := by rw [same]; rfl

theorem of_drop (dropped : m'.stack = m.stack.drop taken) : m.Exchanges taken 0 m' where
  kept := fun _ inside => by rw [dropped, Stack.get?_drop_of_lt inside]
  height := by rw [dropped]; rfl

end Exchanges

theorem Works.exchanges (change : m.Works taken put m') (enough : taken ≤ m.stack.height) :
    m.Exchanges taken put m' where
  kept := fun p inside => by
    have kept := change.truncate (k := m.stack.height - taken) (by omega)
    rw [← Stack.get?_truncate_of_lt inside, kept, Stack.get?_truncate_of_lt inside]
  height := by
    obtain ⟨results, count, stack⟩ := change.stack
    rw [m'.stack.height_eq, stack, List.length_append, count, List.length_drop, ← m.stack.height_eq]
    omega

/-! ## Instructions that end a run -/

theorem callFunction_ne_finished {routine : Routine} {arguments : List Value} {v : Value} :
    m.callFunction s routine arguments ≠ .finished v m' := by
  have activate (m : Machine) : m.activate s routine arguments ≠ .finished v m' := by
    unfold Machine.activate
    split
    · simp
    · split <;> simp
  unfold callFunction
  split
  · exact activate m
  · split
    · simp
    · exact activate _

theorem call_ne_finished {count : Nat} {v : Value} : m.call s count ≠ .finished v m' := by
  unfold call
  split
  · simp
  · simp only
    split
    · unfold callNative
      split
      · simp
      · simp only
        split <;> simp
    · split
      · simp
      · simp
      · split
        · simp
        · exact callFunction_ne_finished
    · simp

theorem yield_ne_finished {r : Except Cause Value} {v : Value} : m.yield_ r ≠ .finished v m' := by
  cases r <;> simp [yield_]

/-- Only a return ends a run. -/
theorem execute_finished {v : Value} (finished : m.execute s frame op operand = .finished v m') :
    op = .return_ := by
  unfold execute at finished
  cases op with
  | return_ => rfl
  | nop | catch_ | endCatch | loadLocal | jump8 | jump16 | jump32 | makeArray | endTry | popHandler =>
      cases finished
  | pop | not | jumpIfFalse8 | jumpIfFalse16 | jumpIfFalse32 | clone | throw =>
      obtain ⟨_, _, _, finished⟩ := withOne_cases finished (by simp)
      cases finished
  | constant | loadGlobal =>
      simp only at finished
      split at finished <;> cases finished
  | storeLocal | storeGlobal =>
      obtain ⟨_, _, _, finished⟩ := withOne_cases finished (by simp)
      split at finished <;> cases finished
  | add | sub | mul | div | intDiv | mod | pow | equal | notEqual | greater | less | greaterEqual
  | lessEqual | in_ =>
      obtain ⟨_, _, _, _, finished⟩ := withTwo_cases finished (by simp)
      exact absurd finished yield_ne_finished
  | negate | arrayLength =>
      obtain ⟨_, _, _, finished⟩ := withOne_cases finished (by simp)
      exact absurd finished yield_ne_finished
  | and | or =>
      obtain ⟨_, _, _, _, finished⟩ := withTwo_cases finished (by simp)
      cases finished
  | call => exact absurd finished call_ne_finished
  | arrayElement =>
      obtain ⟨_, _, _, _, finished⟩ := withTwo_cases finished (by simp)
      unfold yieldOn at finished
      split at finished <;> cases finished
  | beginTry =>
      simp only [beginTry] at finished
      split at finished <;> cases finished

/-- An instruction other than a return that has its operands completes, raises a fault or asks for what
cannot exist. -/
theorem Fetches.executes_or_faults (fetches : m.Fetches frame i) (plain : i.op ≠ .return_)
    (enough : needed i.op i.operand ≤ m.stack.height) :
    (∃ m', m.Executes s frame i m') ∨ (∃ cause m', m.Faults s frame i cause m') ∨ m.step s = .broken := by
  cases executed : (m.fetched frame i).execute s frame i.op i.operand with
  | done m' => exact .inl ⟨m', fetches, enough, executed⟩
  | raised cause m' => exact .inr (.inl ⟨cause, m', fetches, enough, executed⟩)
  | finished v m' => exact absurd (execute_finished executed) plain
  | broken =>
      refine .inr (.inr ?_)
      rw [fetches.step_eq_execute enough, executed]
      rfl

/-! ## The table -/

/-- One case for each way to complete. Among the instructions that complete only a call that begins an
activation adds a frame, so the frames tell whether its result is still to come. -/
theorem Executes.exchanges (executes : m.Executes s frame i m') (plain : i.op ≠ .return_) :
    m.Exchanges (i.op.taken i.operand)
        (if m.frames.height < m'.frames.height then 0 else i.op.pushes) m' ∧
      (m.frames.height < m'.frames.height → i.op = .call) := by
  have enough := executes.enough
  have level : (m.fetched frame i).frames.height = m.frames.height := Stack.height_modifyTop _
  rw [needed_eq_taken plain] at enough
  cases executes.completes with
  | works _ change =>
      obtain ⟨moved, _, frames⟩ := change.frames
      have same : m'.frames.height = m.frames.height := by rw [frames, Stack.height_modifyTop, level]
      rw [needed_eq_taken plain] at change
      obtain ⟨kept, height⟩ := change.exchanges enough
      rw [if_neg (by omega)]
      exact ⟨⟨kept, height⟩, fun deeper => absurd deeper (by omega)⟩
  | calls call change =>
      have deeper : m.frames.height < m'.frames.height := by
        rw [change.frames, Stack.height_push]
        exact Nat.lt_succ_of_le (Nat.le_of_eq level.symm)
      rw [if_pos deeper, ← needed_eq_taken plain]
      exact ⟨.of_drop change.stack, fun _ => call⟩
  | enters begin_ change =>
      have same : m'.frames.height = m.frames.height := by rw [change.frames, level]
      rw [if_neg (by omega), begin_]
      exact ⟨.of_stack_eq change.stack, fun deeper => absurd deeper (by omega)⟩
  | leaves end_ change =>
      obtain ⟨moved, _, frames⟩ := change.frames
      have same : m'.frames.height = m.frames.height := by rw [frames, Stack.height_modifyTop, level]
      rw [if_neg (by omega)]
      refine ⟨?_, fun deeper => absurd deeper (by omega)⟩
      rcases end_ with end_ | end_ <;> rw [end_] <;> exact .of_stack_eq change.stack
  | returns return_ _ => exact absurd return_ plain

theorem Faults.exchanges (faults : m.Faults s frame i cause m') :
    m.Exchanges (i.op.taken i.operand) 0 m' := by
  rw [← needed_eq_taken faults.ne_return]
  exact .of_drop faults.raises.stack

/-- Every instruction but a return keeps to the table of opcodes. With fewer values than it takes it is
refused and takes none; with enough it completes, raises a fault or asks for what cannot exist. If it
completes, it takes as many as the table says and puts as many as the table says, or none if it is a call
that begins an activation. If it raises a fault, it has taken as many and put none when the handlers are
offered the fault. -/
theorem instruction_keeps_table (s : Setup) (fetches : m.Fetches frame i) (plain : i.op ≠ .return_) :
    (m.stack.height < i.op.taken i.operand →
      ∃ fault m', m.step s = .failed fault m' ∧ m'.stack = m.stack) ∧
    (i.op.taken i.operand ≤ m.stack.height →
      (∃ m', m.Executes s frame i m') ∨ (∃ cause m', m.Faults s frame i cause m') ∨
        m.step s = .broken) ∧
    (∀ m', m.Executes s frame i m' → m.step s = .next m' ∧
      m.Exchanges (i.op.taken i.operand)
        (if m.frames.height < m'.frames.height then 0 else i.op.pushes) m' ∧
      (m.frames.height < m'.frames.height → i.op = .call)) ∧
    ∀ cause m', m.Faults s frame i cause m' → m.step s = m'.raise frame cause frame.ip ∧
      m.Exchanges (i.op.taken i.operand) 0 m' := by
  rw [← needed_eq_taken plain]
  refine ⟨fun few => ⟨_, _, fetches.underflow few, rfl⟩, fetches.executes_or_faults plain,
    fun m' executes => ⟨executes.steps, ?_⟩, fun cause m' faults => ⟨?_, ?_⟩⟩
  · rw [needed_eq_taken plain]
    exact executes.exchanges plain
  · rw [fetches.step_eq_execute faults.enough, faults.raised]
    rfl
  · rw [needed_eq_taken plain]
    exact faults.exchanges

/-- A call that begins an activation: the callee is gone, and the value below it is still there. -/
theorem instruction_keeps_table_in_call :
    ∃ frame, (Sample.after 3).Fetches frame ⟨.call, 0⟩ ∧ (Sample.after 3).stack.height = 2 ∧
      (Sample.after 3).frames.height < (Sample.after 4).frames.height ∧
      (Sample.after 3).Exchanges 1 0 (Sample.after 4) := by
  have fetches : (Sample.after 3).Fetches _ ⟨.call, 0⟩ := ⟨rfl, by decide, rfl⟩
  have executes : (Sample.after 3).Executes Sample.setup _ ⟨.call, 0⟩ (Sample.after 4) :=
    ⟨fetches, by decide, rfl⟩
  have deeper : (Sample.after 3).frames.height < (Sample.after 4).frames.height := by decide
  obtain ⟨_, _, completed, _⟩ := instruction_keeps_table Sample.setup fetches (by decide)
  obtain ⟨_, exchanged, _⟩ := completed _ executes
  rw [if_pos deeper] at exchanged
  exact ⟨_, fetches, rfl, deeper, exchanged⟩

end Machine

end TableMachine
