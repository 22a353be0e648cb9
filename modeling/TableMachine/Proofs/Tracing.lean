import TableMachine.Proofs.Reentry

/-! # Where a fault says it was raised

A fault that ends a run carries a line and the trace of the activations that were live. There are four ways to such
a fault (`Fails`), and each takes the line from the chunk of the innermost activation and the trace from what the
activations have on record. The innermost one has its instruction on record as soon as that is decoded, so line and
trace tell the same. Bytes that are no instruction are reported before: the line is theirs, and the trace still shows
the instruction before them. Every other activation waits at a call, and shows the line of that call.
-/

namespace TableMachine

namespace Frame

/-- Where the pointer stands there is no complete instruction. -/
def Garbled (f : Frame) : Prop := 0 ≤ f.ip ∧ f.chunk.instruction? f.ip.toNat = none

instance (f : Frame) : Decidable f.Garbled := inferInstanceAs (Decidable (_ ∧ _))

/-- The offset that a fault of the activation is placed at. A pointer before the code is no offset, and the
instruction that moved it there stands for it. -/
def site (f : Frame) : Int := if f.ip < 0 then f.started else f.ip

end Frame

namespace Machine

/-! ## Faults that end a run -/

/-- What a step does that ends the run with a fault. -/
inductive Fails (s : Setup) (m : Machine) : Fault → Prop where
  /-- The pointer is before the code. -/
  | outside {frame} (top : m.frames.top? = some frame) (before : frame.ip < 0) :
      Fails s m (m.faultAt (.invalidPointer frame.ip) (frame.chunk.lineAt frame.started))
  /-- There is no instruction at the pointer. -/
  | garbled {frame name} (top : m.frames.top? = some frame) (garbled : frame.Garbled) :
      Fails s m (m.faultAt (.invalidInstruction name frame.ip.toNat) (frame.chunk.lineAt frame.ip))
  /-- The stack has too few operands. -/
  | starved {frame i} (fetches : m.Fetches frame i) :
      Fails s m ((m.fetched frame i).faultAt
        (.underflow i.op.name (needed i.op i.operand) m.stack.height) (frame.chunk.lineAt frame.ip))
  /-- An instruction raised a fault, and no handler caught it. -/
  | uncaught {frame i cause raised} (faults : m.Faults s frame i cause raised)
      (uncaught : raised.dispatch cause frame.ip = .uncaught) :
      Fails s m (raised.faultAt cause (frame.chunk.lineAt frame.ip))

variable {s : Setup} {m m₀ ended : Machine} {frame : Frame} {i : Chunk.Instruction} {f : Fault} {fuel : Nat}

theorem perform_fails (fetches : m.Fetches frame i)
    (failed : m.perform s frame frame.ip.toNat i = .failed f ended) : m.Fails s f := by
  rw [perform_eq, Int.toNat_of_nonneg fetches.pointer] at failed
  split at failed
  · cases failed
    exact .starved fetches
  · rename_i height
    have enough : needed i.op i.operand ≤ m.stack.height := Nat.le_of_not_lt height
    cases executed : (m.fetched frame i).execute s frame i.op i.operand with
    | raised cause raised =>
        rw [executed, settled, raise] at failed
        split at failed
        · cases failed
        · rename_i uncaught
          cases failed
          exact .uncaught ⟨fetches, enough, executed⟩ uncaught
        · cases failed
    | _ =>
        rw [executed] at failed
        cases failed

/-- No fault comes from the end of the code, where there is nothing but a return. -/
theorem endOfCode_ne_failed : m.endOfCode s ≠ .failed f ended := by
  intro failed
  unfold endOfCode at failed
  split at failed
  · cases failed
  · split at failed
    · cases failed
    · cases failed
    · rename_i raised
      exact absurd raised returnFrom_ne_raised
    · cases failed

theorem step_fails (failed : m.step s = .failed f ended) : m.Fails s f := by
  unfold step at failed
  split at failed
  · cases failed
  · rename_i frame top
    split at failed
    · exact absurd failed endOfCode_ne_failed
    · split at failed
      · rename_i before
        cases failed
        exact .outside top before
      · rename_i pointer
        simp only at failed
        split at failed
        · rename_i i instruction
          exact perform_fails ⟨top, Int.not_lt.mp pointer, instruction⟩ failed
        · rename_i absent
          cases failed
          rw [Int.toNat_of_nonneg (Int.not_lt.mp pointer)]
          exact .garbled top ⟨Int.not_lt.mp pointer, absent⟩

/-- A run that ends with a fault reaches a machine whose next step fails with it. -/
theorem runSteps_fault (fault : (runSteps s fuel m).1 = .fault f) :
    ∃ m' ended, Reaches s m m' ∧ m'.step s = .failed f ended := by
  induction fuel generalizing m with
  | zero => cases fault
  | succ fuel ih =>
      rw [runSteps] at fault
      split at fault
      · rename_i next
        obtain ⟨m', ended, run, failed⟩ := ih fault
        exact ⟨m', ended, run.head next, failed⟩
      · cases fault
      · rename_i ended failed
        cases fault
        exact ⟨m, ended, .refl, failed⟩
      · cases fault

/-! ## Traces -/

theorem Fetches.not_garbled (fetches : m.Fetches frame i) : ¬ frame.Garbled := by
  intro garbled
  cases fetches.instruction.symm.trans garbled.2

theorem Fails.exists_top (fails : m.Fails s f) : ∃ frame, m.frames.top? = some frame := by
  cases fails with
  | outside top | garbled top => exact ⟨_, top⟩
  | starved fetches => exact ⟨_, fetches.top⟩
  | uncaught faults => exact ⟨_, faults.fetches.top⟩

theorem trace_of_top (top : m.frames.top? = some frame) :
    m.trace = ⟨frame.name, frame.line⟩ :: m.frames.items.tail.map fun g => ⟨g.name, g.line⟩ := by
  obtain ⟨rest, items⟩ := Stack.top?_eq_some_iff.mp top
  unfold trace
  rw [items]
  rfl

theorem Fetches.trace_fetched (fetches : m.Fetches frame i) :
    (m.fetched frame i).trace = ⟨frame.name, frame.chunk.lineAt frame.ip⟩ ::
      m.frames.items.tail.map fun g => ⟨g.name, g.line⟩ := by
  have below : (m.fetched frame i).frames.items.tail = m.frames.items.tail := by
    obtain ⟨rest, items⟩ := Stack.top?_eq_some_iff.mp fetches.top
    show (m.frames.modifyTop _).items.tail = _
    rw [Stack.items_modifyTop, items]
    rfl
  rw [trace_of_top fetches.top_fetched, below]
  show TraceEntry.mk frame.name (frame.chunk.lineAt frame.ip.toNat) :: _ = _
  rw [Int.toNat_of_nonneg fetches.pointer]

theorem Fails.line_eq (fails : m.Fails s f) (top : m.frames.top? = some frame) :
    f.line = frame.chunk.lineAt frame.site := by
  unfold Frame.site
  cases fails with
  | outside found before =>
      cases top.symm.trans found
      rw [if_pos before]
      rfl
  | garbled found garbled =>
      cases top.symm.trans found
      rw [if_neg (Int.not_lt.mpr garbled.1)]
      rfl
  | starved fetches =>
      cases top.symm.trans fetches.top
      rw [if_neg (Int.not_lt.mpr fetches.pointer)]
      rfl
  | uncaught faults =>
      cases top.symm.trans faults.fetches.top
      rw [if_neg (Int.not_lt.mpr faults.fetches.pointer)]
      rfl

/-- The innermost activation is in the trace with the fault's own line, unless there was no instruction to put on
record. The others are in it as they stand. -/
theorem Fails.trace_eq (fails : m.Fails s f) (top : m.frames.top? = some frame) :
    f.trace = ⟨frame.name, if frame.Garbled then frame.line else f.line⟩ ::
      m.frames.items.tail.map fun g => ⟨g.name, g.line⟩ := by
  cases fails with
  | outside found before =>
      cases top.symm.trans found
      have legible : ¬ frame.Garbled := fun garbled => Int.not_lt.mpr garbled.1 before
      rw [if_neg legible]
      exact trace_of_top top
  | garbled found garbled =>
      cases top.symm.trans found
      rw [if_pos garbled]
      exact trace_of_top top
  | starved fetches =>
      cases top.symm.trans fetches.top
      rw [if_neg fetches.not_garbled]
      exact fetches.trace_fetched
  | uncaught faults =>
      cases top.symm.trans faults.fetches.top
      rw [if_neg faults.fetches.not_garbled]
      have frames := faults.raises.frames
      unfold faultAt trace
      rw [frames]
      exact faults.fetches.trace_fetched

/-- Callers by their distance from the innermost activation. -/
theorem CallersWait.atCall (waiting : m.CallersWait) {k : Nat} {caller : Frame}
    (found : m.frames.items[k + 1]? = some caller) : caller.AtCall := by
  have inside : k + 1 < m.frames.height := by
    rw [m.frames.height_eq]
    exact (List.getElem?_eq_some_iff.mp found).1
  apply waiting (m.frames.height - 2 - k) caller (by omega)
  unfold Stack.get?
  rw [if_pos (by omega), ← found]
  congr 1
  omega

/-- The fault that ends a run was raised by a machine that the run reached. Its trace names the activations of that
machine, the innermost first, and shows each caller with the line of the call at which it waits. The innermost
activation is shown with the line of the fault, with one exception: where its pointer stands there is no
instruction. Then the fault has the line of the pointer, and the trace that of the instruction started last. -/
theorem run_fault_traced (fault : (m₀.run s fuel).1 = .fault f) :
    ∃ main m frame ended, s.loaded.program.main = some main ∧ Reaches s (m₀.start main) m ∧
      m.step s = .failed f ended ∧ m.frames.top? = some frame ∧
      f.trace.map (·.function) = m.frames.items.map (·.name) ∧
      f.line = frame.chunk.lineAt frame.site ∧
      f.trace.head?.map (·.line) = some (if frame.Garbled then frame.line else f.line) ∧
      ∀ k caller, m.frames.items[k + 1]? = some caller → caller.AtCall ∧
        f.trace[k + 1]?.map (·.line) = some (caller.chunk.lineAt caller.started) := by
  unfold run at fault
  split at fault
  · cases fault
  · rename_i main present
    obtain ⟨m, ended, run, failed⟩ := runSteps_fault fault
    have fails := step_fails failed
    obtain ⟨frame, top⟩ := fails.exists_top
    obtain ⟨callers, items⟩ := Stack.top?_eq_some_iff.mp top
    have trace := fails.trace_eq top
    rw [items, List.tail_cons] at trace
    refine ⟨main, m, frame, ended, present, run, failed, top, ?_, fails.line_eq top, ?_, fun k caller found => ?_⟩
    · rw [trace, items, List.map_cons, List.map_cons, List.map_map]
      rfl
    · rw [trace]
      rfl
    · refine ⟨(reaches_callersWait run).atCall found, ?_⟩
      rw [items, List.getElem?_cons_succ] at found
      rw [trace, List.getElem?_cons_succ, List.getElem?_map, found]
      rfl

end Machine

/-! ## A fault whose line is not in its trace

The main chunk calls a function. The function has one instruction, which does nothing, and a byte that is none.
-/

namespace Misplaced

def main : Chunk :=
  { Chunk.empty with
    code := some #[0x02, 0, 0, 0x50, 0]
    constants := some #[Literal.constant (.function 0)]
    lines := some #[⟨0, 1⟩, ⟨3, 2⟩] }

def body : Chunk :=
  { Chunk.empty with
    code := some #[0x00, 0xff]
    lines := some #[⟨0, 5⟩, ⟨1, 6⟩] }

def setup : Setup where
  config := {}
  natives := #[]
  loaded := ⟨0, ⟨some main, #[some ⟨[0x66], 0, none, #[], false, some body⟩]⟩⟩

def machine : Machine := Machine.new { heap := {}, files := .empty [] }

def fault : Fault where
  cause := .invalidInstruction (Opcode.nameOfByte 0xff) 1
  line := 6
  trace := [⟨[0x66], 5⟩, ⟨"<main>", 2⟩]

end Misplaced

namespace Machine

theorem run_fault_traced_misplaced :
    (Misplaced.machine.run Misplaced.setup 4).1 = .fault Misplaced.fault ∧
      ∃ m frame, Reaches Misplaced.setup (Misplaced.machine.start Misplaced.main) m ∧
        m.frames.top? = some frame ∧ frame.Garbled ∧
        Misplaced.fault.trace.map (·.function) = m.frames.items.map (·.name) ∧
        Misplaced.fault.trace.head?.map (·.line) = some frame.line ∧
        Misplaced.fault.trace.head?.map (·.line) ≠ some Misplaced.fault.line ∧
        ∃ caller, m.frames.items[1]? = some caller ∧ caller.AtCall ∧ caller.line = 2 := by
  have fault : (Misplaced.machine.run Misplaced.setup 4).1 = .fault Misplaced.fault := rfl
  obtain ⟨main, m, frame, ended, present, run, failed, top, functions, line, head, callers⟩ := run_fault_traced fault
  cases present
  -- The lines of the two differ, and that leaves one case.
  have garbled : frame.Garbled := by
    refine Decidable.byContradiction fun legible => ?_
    rw [if_neg legible] at head
    exact absurd head (by decide)
  rw [if_pos garbled] at head
  have second : 1 < m.frames.items.length := by
    have two := congrArg List.length functions
    rw [List.length_map, List.length_map] at two
    exact two ▸ Nat.lt_succ_self 1
  obtain ⟨waits, called⟩ := callers 0 _ (List.getElem?_eq_getElem second)
  exact ⟨fault, m, frame, run, top, garbled, functions, head, by decide, _, List.getElem?_eq_getElem second, waits,
    Option.some.inj called.symm⟩

end Machine

end TableMachine
