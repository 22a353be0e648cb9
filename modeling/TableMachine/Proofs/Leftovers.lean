import TableMachine.Native.Builtin
import TableMachine.Proofs.Clearing

/-! # What earlier runs left behind

A machine that has run before holds leftovers: values and handlers of a program that ran off its end, names and
declarations, and in the channel whatever the native that ran last put there. The start of a run clears them all
except the channel. That is emptied only when a native is called, so between two such calls nothing may read it.

Main statement: two machines that differ in leftovers run every program alike. On the way there, machines are
compared that differ in their channels at most; every step takes such machines to such machines, and the call of a
native makes them equal.
-/

namespace TableMachine

namespace Machine

/-- The machine with another channel. -/
def withChannel (m : Machine) (channel : Channel) : Machine :=
  { m with host := { m.host with channel := channel } }

/-- The machines differ in their channels at most. -/
def Alike (m n : Machine) : Prop := ∃ channel, n = m.withChannel channel

end Machine

/-- The instructions did the same, to machines that differ in their channels at most. -/
inductive Effect.Alike : Effect → Effect → Prop where
  | done {m n : Machine} (alike : m.Alike n) : Alike (.done m) (.done n)
  | raised {m n : Machine} (cause : Cause) (alike : m.Alike n) : Alike (.raised cause m) (.raised cause n)
  | finished {m n : Machine} (result : Value) (alike : m.Alike n) :
      Alike (.finished result m) (.finished result n)
  | broken : Alike .broken .broken

/-- The steps led to the same, on machines that differ in their channels at most. -/
inductive Machine.Outcome.Alike : Machine.Outcome → Machine.Outcome → Prop where
  | next {m n : Machine} (alike : m.Alike n) : Alike (.next m) (.next n)
  | finished {m n : Machine} (result : Value) (alike : m.Alike n) :
      Alike (.finished result m) (.finished result n)
  | failed {m n : Machine} (fault : Fault) (alike : m.Alike n) : Alike (.failed fault m) (.failed fault n)
  | broken : Alike .broken .broken

namespace Machine

variable {s : Setup} {m n : Machine} {frame : Frame} {main : Chunk} {cause : Cause}

namespace Alike

theorem refl (m : Machine) : m.Alike m := ⟨m.host.channel, rfl⟩

theorem push (alike : m.Alike n) (v : Value) : (m.push v).Alike (n.push v) := by
  obtain ⟨channel, rfl⟩ := alike
  exact ⟨channel, rfl⟩

theorem drop (alike : m.Alike n) (count : Nat) : (m.drop count).Alike (n.drop count) := by
  obtain ⟨channel, rfl⟩ := alike
  exact ⟨channel, rfl⟩

theorem withHeap (alike : m.Alike n) (heap : Heap) : (m.withHeap heap).Alike (n.withHeap heap) := by
  obtain ⟨channel, rfl⟩ := alike
  exact ⟨channel, rfl⟩

theorem modifyFrame (alike : m.Alike n) (change : Frame → Frame) :
    (m.modifyFrame change).Alike (n.modifyFrame change) := by
  obtain ⟨channel, rfl⟩ := alike
  exact ⟨channel, rfl⟩

end Alike

/-! ## Operands and results -/

theorem withOne_alike {f : Value → Machine → Effect} (alike : m.Alike n)
    (each : ∀ v {m n : Machine}, m.Alike n → (f v m).Alike (f v n)) :
    (m.withOne f).Alike (n.withOne f) := by
  have dropped := alike.drop 1
  obtain ⟨channel, rfl⟩ := alike
  have same : (m.withChannel channel).stack = m.stack := rfl
  unfold withOne
  rw [same]
  cases m.stack.items with
  | nil => exact .broken
  | cons v rest => exact each v dropped

theorem withTwo_alike {f : Value → Value → Machine → Effect} (alike : m.Alike n)
    (each : ∀ a b {m n : Machine}, m.Alike n → (f a b m).Alike (f a b n)) :
    (m.withTwo f).Alike (n.withTwo f) := by
  have dropped := alike.drop 2
  obtain ⟨channel, rfl⟩ := alike
  have same : (m.withChannel channel).stack = m.stack := rfl
  unfold withTwo
  rw [same]
  match m.stack.items with
  | [] | [_] => exact .broken
  | b :: a :: rest => exact each a b dropped

theorem yield_alike (alike : m.Alike n) (r : Except Cause Value) : (m.yield_ r).Alike (n.yield_ r) := by
  cases r with
  | ok v => exact .done (alike.push v)
  | error cause => exact .raised cause alike

theorem yieldOn_alike (alike : m.Alike n) (r : Except Cause (Value × Heap)) :
    (m.yieldOn r).Alike (n.yieldOn r) := by
  cases r with
  | ok answer => exact .done ((alike.withHeap answer.2).push answer.1)
  | error cause => exact .raised cause alike

/-! ## Calls and returns -/

/-- Where there is a native to call, the machines are equal afterwards. -/
theorem callNative_alike (alike : m.Alike n) (index : Int) (arguments : List Value) :
    (m.callNative s index arguments).Alike (n.callNative s index arguments) := by
  obtain ⟨channel, rfl⟩ := alike
  have emptied : (m.withChannel channel).host.reset = m.host.reset := rfl
  unfold callNative
  rw [emptied]
  cases (if index < 0 then none else s.natives[index.toNat]?) with
  | none => exact .raised _ ⟨channel, rfl⟩
  | some native =>
      simp only
      cases (native.run m.host.reset arguments).cause with
      | none => exact .done (.refl _)
      | some cause => exact .raised cause (.refl _)

theorem activate_alike (alike : m.Alike n) (routine : Routine) (arguments : List Value) :
    (m.activate s routine arguments).Alike (n.activate s routine arguments) := by
  obtain ⟨channel, rfl⟩ := alike
  have full : (m.withChannel channel).isFull s = m.isFull s := rfl
  have slots : (m.withChannel channel).newSlots? routine.function arguments =
      m.newSlots? routine.function arguments := rfl
  unfold activate
  rw [full, enter?_eq, enter?_eq, slots]
  split
  · exact .raised _ ⟨channel, rfl⟩
  · cases routine.function.chunk with
    | none => exact .broken
    | some chunk =>
        cases m.newSlots? routine.function arguments with
        | none => exact .broken
        | some slots => exact .done ⟨channel, rfl⟩

theorem callFunction_alike (alike : m.Alike n) (routine : Routine) (arguments : List Value) :
    (m.callFunction s routine arguments).Alike (n.callFunction s routine arguments) := by
  unfold callFunction
  cases callKey? routine.function arguments with
  | none => exact activate_alike alike routine arguments
  | some text =>
      obtain ⟨channel, rfl⟩ := alike
      let key : MemoKey := ⟨s.loaded.unit, routine.position⟩
      have consulted : (m.withChannel channel).consult key text =
          ((m.consult key text).1, (m.consult key text).2.withChannel channel) := rfl
      simp only [key] at consulted ⊢
      rw [consulted]
      cases m.consult ⟨s.loaded.unit, routine.position⟩ text with
      | mk found m' =>
          cases found with
          | some v => exact .done ⟨channel, rfl⟩
          | none => exact activate_alike ⟨channel, rfl⟩ routine arguments

theorem call_alike (alike : m.Alike n) (count : Nat) : (m.call s count).Alike (n.call s count) := by
  have rest := alike.drop (count + 1)
  obtain ⟨channel, rfl⟩ := alike
  have same : (m.withChannel channel).stack = m.stack := rfl
  unfold call
  rw [same]
  cases m.stack.top? with
  | none => exact .broken
  | some callee =>
      cases callee with
      | native index => exact callNative_alike rest index _
      | function index =>
          simp only
          cases s.loaded.program.function? index with
          | none => exact .raised _ rest
          | some entry =>
              cases entry with
              | none => exact .broken
              | some f =>
                  simp only
                  split
                  · exact .raised _ rest
                  · exact callFunction_alike rest _ _
      | _ => exact .raised _ rest

theorem returnFrom_alike (alike : m.Alike n) (result : Value) :
    (m.returnFrom s result).Alike (n.returnFrom s result) := by
  obtain ⟨channel, rfl⟩ := alike
  have frames : (m.withChannel channel).frames = m.frames := rfl
  cases top : m.frames.top? with
  | none =>
      unfold returnFrom
      rw [frames, top]
      exact .broken
  | some f =>
      have memos : ((m.withChannel channel).remember s f result).memos = (m.remember s f result).memos :=
        remember_memos rfl (.refl f)
      have unwound : (m.unwound s f result).Alike ((m.withChannel channel).unwound s f result) := by
        unfold Machine.unwound
        rw [memos]
        exact ⟨channel, rfl⟩
      rw [returnFrom_eq s result top, returnFrom_eq s result (frames ▸ top), frames]
      split
      · exact .finished result unwound
      · exact .done (unwound.push result)

/-! ## Instructions -/

theorem storeGlobal?_alike (channel : Channel) (slot : Int) (v : Value) :
    (m.withChannel channel).storeGlobal? slot v =
      (m.storeGlobal? slot v).map fun m => m.withChannel channel := by
  have globals : (m.withChannel channel).globals = m.globals := rfl
  have names : (m.withChannel channel).globalNames = m.globalNames := rfl
  unfold storeGlobal?
  rw [globals, names]
  cases Frame.storeSlot? m.globals slot v with
  | none => rfl
  | some globals =>
      cases v with
      | table r => cases m.globalNames.get? slot <;> rfl
      | _ => rfl

theorem beginTry_alike (alike : m.Alike n) (frame : Frame) (index : Int) :
    (m.beginTry frame index).Alike (n.beginTry frame index) := by
  obtain ⟨channel, rfl⟩ := alike
  unfold beginTry
  split
  · exact .raised _ ⟨channel, rfl⟩
  · exact .done ⟨channel, rfl⟩

theorem endTry_alike (alike : m.Alike n) : m.endTry.Alike n.endTry := by
  obtain ⟨channel, rfl⟩ := alike
  have handlers : (m.withChannel channel).handlers = m.handlers := rfl
  unfold endTry
  rw [handlers]
  cases m.handlers.top? with
  | none => exact ⟨channel, rfl⟩
  | some h =>
      simp only
      split
      · exact ⟨channel, rfl⟩
      · exact ⟨channel, rfl⟩

/-- No instruction but the call of a native looks at the channel. -/
theorem execute_alike (alike : m.Alike n) (frame : Frame) (op : Opcode) (operand : Int) :
    (m.execute s frame op operand).Alike (n.execute s frame op operand) := by
  unfold execute
  cases op with
  | nop | catch_ | endCatch => exact .done alike
  | pop => exact withOne_alike alike fun _ => .done
  | constant =>
      simp only
      split
      · exact .done (alike.push _)
      · exact .raised _ alike
  | loadLocal => exact .done (alike.push _)
  | storeLocal =>
      apply withOne_alike alike
      intro v m n alike
      split
      · exact .done (alike.modifyFrame _)
      · exact .broken
  | loadGlobal =>
      obtain ⟨channel, rfl⟩ := alike
      have globals : (m.withChannel channel).globals = m.globals := rfl
      simp only [globals]
      split
      · exact .done ⟨channel, rfl⟩
      · exact .raised _ ⟨channel, rfl⟩
  | storeGlobal =>
      apply withOne_alike alike
      rintro v m n ⟨channel, rfl⟩
      rw [storeGlobal?_alike]
      cases m.storeGlobal? operand v with
      | none => exact .broken
      | some m' => exact .done ⟨channel, rfl⟩
  | add | sub | mul | div | intDiv | mod | pow | equal | notEqual | greater | less | greaterEqual
  | lessEqual | in_ =>
      apply withTwo_alike alike
      rintro a b m n ⟨channel, rfl⟩
      exact yield_alike ⟨channel, rfl⟩ _
  | negate => exact withOne_alike alike fun v _ _ alike => yield_alike alike _
  | not =>
      apply withOne_alike alike
      rintro v m n ⟨channel, rfl⟩
      exact .done ⟨channel, rfl⟩
  | and | or =>
      apply withTwo_alike alike
      rintro a b m n ⟨channel, rfl⟩
      exact .done ⟨channel, rfl⟩
  | jump8 | jump16 | jump32 => exact .done (alike.modifyFrame _)
  | jumpIfFalse8 | jumpIfFalse16 | jumpIfFalse32 =>
      apply withOne_alike alike
      rintro v m n ⟨channel, rfl⟩
      have heap : (m.withChannel channel).heap = m.heap := rfl
      rw [heap]
      split
      · exact .done ⟨channel, rfl⟩
      · exact .done ⟨channel, rfl⟩
  | call => exact call_alike alike _
  | return_ =>
      have stack : n.stack = m.stack := by
        obtain ⟨channel, rfl⟩ := alike
        rfl
      simp only [stack]
      split
      · exact withOne_alike alike fun v _ _ alike => returnFrom_alike alike v
      · exact returnFrom_alike alike _
  | makeArray =>
      obtain ⟨channel, rfl⟩ := alike
      exact .done ⟨channel, rfl⟩
  | arrayLength =>
      apply withOne_alike alike
      rintro v m n ⟨channel, rfl⟩
      exact yield_alike ⟨channel, rfl⟩ _
  | arrayElement =>
      apply withTwo_alike alike
      rintro a b m n ⟨channel, rfl⟩
      exact yieldOn_alike ⟨channel, rfl⟩ _
  | clone =>
      apply withOne_alike alike
      rintro v m n ⟨channel, rfl⟩
      exact .done ⟨channel, rfl⟩
  | beginTry => exact beginTry_alike alike frame operand
  | endTry => exact .done (endTry_alike alike)
  | throw =>
      apply withOne_alike alike
      rintro v m n ⟨channel, rfl⟩
      exact .raised _ ⟨channel, rfl⟩
  | popHandler =>
      obtain ⟨channel, rfl⟩ := alike
      exact .done ⟨channel, rfl⟩

/-! ## Steps and runs -/

theorem catcher?_alike (channel : Channel) (t : ErrorType) (site : Int) (handlers : List Handler) :
    (m.withChannel channel).catcher? t site handlers = m.catcher? t site handlers := by
  induction handlers with
  | nil => rfl
  | cons h older ih =>
      have offered : (m.withChannel channel).clauseFor? t site h = m.clauseFor? t site h := rfl
      rw [catcher?, catcher?, offered, ih]

theorem raise_alike (alike : m.Alike n) (frame : Frame) (cause : Cause) (site : Int) :
    (m.raise frame cause site).Alike (n.raise frame cause site) := by
  obtain ⟨channel, rfl⟩ := alike
  have frames : (m.withChannel channel).frames = m.frames := rfl
  have handlers : (m.withChannel channel).handlers = m.handlers := rfl
  unfold raise dispatch
  rw [handlers, catcher?_alike, frames]
  cases m.catcher? cause.errorType site m.handlers.items with
  | none => exact .failed _ ⟨channel, rfl⟩
  | some found =>
      obtain ⟨h, clause, older⟩ := found
      simp only
      cases (m.frames.truncate (h.frameIndex + 1)).top? with
      | none => exact .failed _ ⟨channel, rfl⟩
      | some owner =>
          simp only
          cases enterCatch? owner clause cause.message with
          | none => exact .broken
          | some bound => exact .next ⟨channel, rfl⟩

theorem settled_alike {first second : Effect} (alike : first.Alike second) (frame : Frame) (site : Int) :
    (settled frame site first).Alike (settled frame site second) := by
  cases alike with
  | done alike => exact .next alike
  | raised cause alike => exact raise_alike alike frame cause site
  | finished result alike => exact .finished result alike
  | broken => exact .broken

theorem endOfCode_alike (alike : m.Alike n) : (m.endOfCode s).Alike (n.endOfCode s) := by
  have returned := returnFrom_alike (s := s) alike .null
  obtain ⟨channel, rfl⟩ := alike
  have frames : (m.withChannel channel).frames = m.frames := rfl
  unfold endOfCode
  rw [frames]
  split
  · exact .finished _ ⟨channel, rfl⟩
  · generalize m.returnFrom s .null = first at returned
    generalize (m.withChannel channel).returnFrom s .null = second at returned
    cases returned with
    | done alike => exact .next alike
    | raised cause alike =>
        obtain ⟨channel', rfl⟩ := alike
        exact .failed _ ⟨channel', rfl⟩
    | finished result alike => exact .finished result alike
    | broken => exact .broken

theorem step_alike (alike : m.Alike n) : (m.step s).Alike (n.step s) := by
  have ended := endOfCode_alike (s := s) alike
  obtain ⟨channel, rfl⟩ := alike
  have frames : (m.withChannel channel).frames = m.frames := rfl
  unfold step
  rw [frames]
  cases m.frames.top? with
  | none => exact .broken
  | some frame =>
      simp only
      split
      · exact ended
      · split
        · exact .failed _ ⟨channel, rfl⟩
        · split
          · rename_i i _
            rw [perform_eq, perform_eq]
            split
            · rename_i short
              rw [if_pos (show (m.withChannel channel).stack.height < _ from short)]
              exact .failed _ ⟨channel, rfl⟩
            · rename_i enough
              rw [if_neg (show ¬ (m.withChannel channel).stack.height < _ from enough)]
              exact settled_alike (execute_alike ⟨channel, rfl⟩ frame i.op i.operand) frame _
          · exact .failed _ ⟨channel, rfl⟩

theorem runSteps_alike (alike : m.Alike n) (fuel : Nat) :
    (runSteps s fuel m).1 = (runSteps s fuel n).1 ∧ (runSteps s fuel m).2.Alike (runSteps s fuel n).2 := by
  induction fuel generalizing m n with
  | zero => exact ⟨rfl, alike⟩
  | succ fuel ih =>
      have stepped := step_alike (s := s) alike
      rw [runSteps, runSteps]
      cases first : m.step s <;> cases second : n.step s <;> rw [first, second] at stepped <;> cases stepped
      · rename_i alike
        exact ih alike
      · rename_i alike
        exact ⟨rfl, alike⟩
      · rename_i alike
        obtain ⟨channel, rfl⟩ := alike
        exact ⟨rfl, channel, rfl⟩
      · exact ⟨rfl, alike⟩

/-! ## Leftovers -/

/-- The machines hold the same globals, remembered results and host, the channel of the host apart. Whatever else
is in them was left there by earlier runs. -/
structure SameLasting (m n : Machine) : Prop where
  globals : n.globals = m.globals
  memos : n.memos = m.memos
  host : n.host.reset = m.host.reset

/-- The machines also show the same names and declarations. -/
structure SameShown (m n : Machine) : Prop extends SameLasting m n where
  globalNames : n.globalNames = m.globalNames
  explicitNames : n.explicitNames = m.explicitNames
  relations : n.relations = m.relations
  primaryKeys : n.primaryKeys = m.primaryKeys

theorem Alike.sameShown (alike : m.Alike n) : m.SameShown n := by
  obtain ⟨channel, rfl⟩ := alike
  exact ⟨⟨rfl, rfl, rfl⟩, rfl, rfl, rfl, rfl⟩

theorem SameLasting.start_alike (same : m.SameLasting n) (main : Chunk) :
    (m.start main).Alike (n.start main) := by
  have host : n.host = { m.host with channel := n.host.channel } :=
    congrArg (fun host : Host => { host with channel := n.host.channel }) same.host
  refine ⟨n.host.channel, ?_⟩
  unfold start withChannel
  rw [same.globals, same.memos, ← host]

/-- Whatever earlier runs left on two machines, a program runs on them alike: after any number of steps both are
still going, or both have ended with the same value or fault, and they show the same. A program without a main
chunk is refused before anything is cleared, so there both machines stay as they are. -/
theorem run_ignores_leftovers (same : m.SameLasting n) (s : Setup) (fuel : Nat) :
    (m.run s fuel).1 = (n.run s fuel).1 ∧
    (s.loaded.program.main.isSome → (m.run s fuel).2.SameShown (n.run s fuel).2) ∧
    (s.loaded.program.main = none → (m.run s fuel).2 = m ∧ (n.run s fuel).2 = n) := by
  unfold run
  cases s.loaded.program.main with
  | none =>
      refine ⟨rfl, fun present => ?_, fun _ => ⟨rfl, rfl⟩⟩
      cases present
  | some main =>
      obtain ⟨result, alike⟩ := runSteps_alike (s := s) (same.start_alike main) fuel
      refine ⟨result, fun _ => alike.sameShown, fun absent => ?_⟩
      cases absent

end Machine

/-! ## A machine that has run before

The earlier program makes a table, keeps it in a declared global and names its primary key. It ends with a value
below its result and within a try region. The later program asks a native for the number of rows.
-/

namespace Residue

def setup (main : Option Chunk) : Setup where
  config := {}
  natives := Native.builtins.toArray
  loaded := ⟨0, ⟨main, #[]⟩⟩

def earlier : Chunk :=
  { Chunk.empty with
    code := some #[0x02, 0, 0, 0x60, 1, 0, 0x02, 1, 0, 0x50, 1, 0x13, 0, 0, 0x12, 0, 0, 0x02, 0, 0, 0x62,
      0x02, 2, 0, 0x50, 1, 0x70, 0, 0, 0x02, 3, 0]
    constants := some #[Literal.constant (.string [0x61]), Literal.constant (.native 2),
      Literal.constant (.native 5), Literal.constant (.bool true)]
    regions := some #[⟨some #[], noIndex⟩]
    globals := some ⟨[(0, [0x74])], by decide⟩
    explicit := some ⟨[(0, [0x74])], by decide⟩ }

def later : Chunk :=
  { Chunk.empty with
    code := some #[0x12, 0, 0, 0x02, 0, 0, 0x50, 1, 0x51]
    constants := some #[Literal.constant (.native 1)] }

/-- The machine after the earlier program. -/
def used : Machine := ((Machine.new { heap := {}, files := .empty [] }).run (setup (some earlier)) 20).2

/-- A machine with the same globals and the same heap that has run nothing. -/
def fresh : Machine := { Machine.new used.host.reset with globals := used.globals, memos := used.memos }

end Residue

namespace Machine

theorem run_ignores_leftovers_of_residue :
    Residue.used.SameLasting Residue.fresh ∧
      (Residue.used.stack.height, Residue.used.handlers.height, Residue.used.primaryKeys.length,
        Residue.used.host.channel.primaryKeys.length) = (1, 1, 1, 1) ∧
      (Residue.used.run (Residue.setup (some Residue.later)) 9).1 = .value (.ofNat 0) ∧
      (Residue.fresh.run (Residue.setup (some Residue.later)) 9).1 = .value (.ofNat 0) ∧
      (Residue.used.run (Residue.setup (some Residue.later)) 9).2.SameShown
        (Residue.fresh.run (Residue.setup (some Residue.later)) 9).2 := by
  have same : Residue.used.SameLasting Residue.fresh := ⟨rfl, rfl, rfl⟩
  obtain ⟨result, shown, _⟩ := run_ignores_leftovers same (Residue.setup (some Residue.later)) 9
  have ends : (Residue.used.run (Residue.setup (some Residue.later)) 9).1 = .value (.ofNat 0) := rfl
  exact ⟨same, by decide, ends, result.symm.trans ends, shown rfl⟩

/-- A program without a main chunk clears nothing, and the names that it leaves are those of the program before. -/
theorem refusal_keeps_leftovers :
    Residue.used.SameLasting Residue.fresh ∧
      (Residue.used.run (Residue.setup none) 1).2.globalNames ≠
        (Residue.fresh.run (Residue.setup none) 1).2.globalNames ∧
      (Residue.used.run (Residue.setup none) 1).2.primaryKeys ≠
        (Residue.fresh.run (Residue.setup none) 1).2.primaryKeys := by
  refine ⟨⟨rfl, rfl, rfl⟩, ?_, ?_⟩
  · decide
  · decide

end Machine

end TableMachine
