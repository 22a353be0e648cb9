import TableMachine.Machine.Step
import TableMachine.Proofs.Stack

/-! # What an instruction does to the stacks

Executing an instruction changes the value stack, the activations and the handlers in one of five
ways: it works on values within its own activation, begins an activation, enters a try region, leaves
one, or returns. Where it raises a fault, its operands are gone and nothing else of the three stacks
has changed. These two facts, `execute_done` and `execute_raised`, are all that later modules need to
know about the single instructions.
-/

namespace TableMachine

/-- `g` is the activation `f` at a later time. The instructions of an activation change its slots and
its pointer and nothing else. -/
structure Frame.Continues (f g : Frame) : Prop where
  routine : g.routine = f.routine
  chunk : g.chunk = f.chunk
  stackStart : g.stackStart = f.stackStart
  arguments : g.arguments = f.arguments
  serial : g.serial = f.serial

namespace Frame.Continues

theorem refl (f : Frame) : f.Continues f := ⟨rfl, rfl, rfl, rfl, rfl⟩

theorem trans {f g h : Frame} (first : f.Continues g) (second : g.Continues h) : f.Continues h where
  routine := second.routine.trans first.routine
  chunk := second.chunk.trans first.chunk
  stackStart := second.stackStart.trans first.stackStart
  arguments := second.arguments.trans first.arguments
  serial := second.serial.trans first.serial

end Frame.Continues

namespace Machine

/-! ## The five ways -/

/-- `m'` is `m` after work on values: the `taken` latest values gave way to `put` others, and at most
the innermost activation moved on. -/
structure Works (m : Machine) (taken put : Nat) (m' : Machine) : Prop where
  stack : ∃ results, results.length = put ∧ m'.stack.items = results ++ m.stack.items.drop taken
  frames : ∃ change : Frame → Frame,
    (∀ f : Frame, f.Continues (change f)) ∧ m'.frames = m.frames.modifyTop change
  handlers : m'.handlers = m.handlers
  activations : m'.activations = m.activations
  regionsEntered : m'.regionsEntered = m.regionsEntered

/-- `m'` is `m` with the activation `called` of a function of the program on top. -/
structure Activates (s : Setup) (m : Machine) (called : Frame) (m' : Machine) : Prop where
  routine : ∃ routine index, called.routine = some routine ∧
    routine.function.chunk = some called.chunk ∧
    s.loaded.program.function? index = some (some routine.function)
  stackStart : called.stackStart = m.stack.height
  serial : called.serial = m.activations + 1
  room : m.isFull s = false
  stack : m'.stack = m.stack
  frames : m'.frames = m.frames.push called
  handlers : m'.handlers = m.handlers
  activations : m'.activations = m.activations + 1
  regionsEntered : m'.regionsEntered = m.regionsEntered

/-- The handler of a try region that the activation `frame` enters now. -/
def handlerOf (m : Machine) (frame : Frame) (region : TryRegion) : Handler where
  region := region
  stackHeight := m.stack.height
  frameIndex := m.topIndex
  fired := false
  owner := frame.serial
  serial := m.regionsEntered

/-- `m'` is `m` with a try region of the activation `frame` entered. -/
structure Enters (m : Machine) (frame : Frame) (region : TryRegion) (m' : Machine) : Prop where
  listed : region ∈ frame.chunk.regions.entries
  stack : m'.stack = m.stack
  frames : m'.frames = m.frames
  handlers : m'.handlers = m.handlers.push (m.handlerOf frame region)
  activations : m'.activations = m.activations
  regionsEntered : m'.regionsEntered = m.regionsEntered + 1

/-- `m'` is `m` without its latest handler, if there is one. -/
structure Leaves (m m' : Machine) : Prop where
  stack : m'.stack = m.stack
  frames : ∃ change : Frame → Frame,
    (∀ f : Frame, f.Continues (change f)) ∧ m'.frames = m.frames.modifyTop change
  handlers : m'.handlers = m.handlers.drop 1
  activations : m'.activations = m.activations
  regionsEntered : m'.regionsEntered = m.regionsEntered

/-- `m'` is `m` after its innermost activation `ended` gave `result` to the one below. -/
structure Returns (m : Machine) (ended : Frame) (result : Value) (m' : Machine) : Prop where
  top : m.frames.top? = some ended
  nested : 1 < m.frames.height
  stack : m'.stack = (m.stack.truncate ended.stackStart).push result
  frames : m'.frames = m.frames.drop 1
  handlers : m'.handlers = m.handlers.dropWhile fun h => m.topIndex ≤ h.frameIndex
  activations : m'.activations = m.activations
  regionsEntered : m'.regionsEntered = m.regionsEntered

/-- What an instruction does that completes, in a machine whose pointer is already past it. -/
inductive Completes (s : Setup) (m : Machine) (frame : Frame) (op : Opcode) (operand : Int) :
    Machine → Prop where
  | works {m'} (plain : op ≠ .return_) (change : m.Works (needed op operand) op.pushes m') :
      Completes s m frame op operand m'
  | calls {called m'} (call : op = .call)
      (change : (m.drop (needed op operand)).Activates s called m') :
      Completes s m frame op operand m'
  | enters {region m'} (begin_ : op = .beginTry) (change : m.Enters frame region m') :
      Completes s m frame op operand m'
  | leaves {m'} (end_ : op = .endTry ∨ op = .popHandler) (change : m.Leaves m') :
      Completes s m frame op operand m'
  | returns {ended result m'} (return_ : op = .return_) (change : m.Returns ended result m') :
      Completes s m frame op operand m'

/-- `m'` is `m` after an instruction that raised a fault: its operands are gone. -/
structure Raises (m : Machine) (taken : Nat) (m' : Machine) : Prop where
  stack : m'.stack = m.stack.drop taken
  frames : m'.frames = m.frames
  handlers : m'.handlers = m.handlers
  activations : m'.activations = m.activations
  regionsEntered : m'.regionsEntered = m.regionsEntered

/-! ## Work on values -/

variable {s : Setup} {m m₁ m' : Machine} {frame : Frame} {op : Opcode} {operand : Int}
  {taken put : Nat} {v : Value}

private theorem modifyTop_id (frames : Stack Frame) : frames.modifyTop id = frames := by
  apply Stack.ext
  rw [Stack.items_modifyTop, List.modifyHead_id]
  rfl

private theorem modifyTop_modifyTop (frames : Stack Frame) (f g : Frame → Frame) :
    (frames.modifyTop f).modifyTop g = frames.modifyTop (g ∘ f) := by
  apply Stack.ext
  simp only [Stack.items_modifyTop, List.modifyHead_modifyHead]

namespace Works

/-- Changes outside the three stacks, as of the heap or of remembered results. -/
theorem elsewhere (stack : m'.stack = m.stack) (frames : m'.frames = m.frames)
    (handlers : m'.handlers = m.handlers) (activations : m'.activations = m.activations)
    (regionsEntered : m'.regionsEntered = m.regionsEntered) : m.Works 0 0 m' where
  stack := ⟨[], rfl, by rw [stack]; rfl⟩
  frames := ⟨id, Frame.Continues.refl, by rw [frames, modifyTop_id]⟩
  handlers := handlers
  activations := activations
  regionsEntered := regionsEntered

theorem refl (m : Machine) : m.Works 0 0 m := elsewhere rfl rfl rfl rfl rfl

theorem drop (m : Machine) (n : Nat) : m.Works n 0 (m.drop n) where
  stack := ⟨[], rfl, rfl⟩
  frames := ⟨id, Frame.Continues.refl, (modifyTop_id _).symm⟩
  handlers := rfl
  activations := rfl
  regionsEntered := rfl

theorem withHeap (m : Machine) (heap : Heap) : m.Works 0 0 (m.withHeap heap) :=
  elsewhere rfl rfl rfl rfl rfl

theorem modifyFrame {change : Frame → Frame} (continues : ∀ f : Frame, f.Continues (change f)) :
    m.Works 0 0 (m.modifyFrame change) where
  stack := ⟨[], rfl, rfl⟩
  frames := ⟨change, continues, rfl⟩
  handlers := rfl
  activations := rfl
  regionsEntered := rfl

theorem trans (first : m.Works taken put m₁) (second : m₁.Works 0 0 m') : m.Works taken put m' := by
  obtain ⟨results, count, stack⟩ := first.stack
  obtain ⟨none_, empty, stack'⟩ := second.stack
  obtain ⟨change, continues, frames⟩ := first.frames
  obtain ⟨change', continues', frames'⟩ := second.frames
  have none_nil : none_ = [] := List.length_eq_zero_iff.mp empty
  refine ⟨⟨results, count, ?_⟩, ⟨change' ∘ change, ?_, ?_⟩, ?_, ?_, ?_⟩
  · rw [stack', none_nil, stack]
    rfl
  · exact fun f => (continues f).trans (continues' _)
  · rw [frames', frames, modifyTop_modifyTop]
  · rw [second.handlers, first.handlers]
  · rw [second.activations, first.activations]
  · rw [second.regionsEntered, first.regionsEntered]

theorem push (change : m.Works taken 0 m₁) (v : Value) : m.Works taken 1 (m₁.push v) := by
  obtain ⟨results, empty, stack⟩ := change.stack
  have results_nil : results = [] := List.length_eq_zero_iff.mp empty
  refine ⟨⟨[v], rfl, ?_⟩, change.frames, change.handlers, change.activations,
    change.regionsEntered⟩
  show v :: m₁.stack.items = _
  rw [stack, results_nil]
  rfl

end Works

theorem Raises.works (change : m.Raises taken m') : m.Works taken 0 m' where
  stack := ⟨[], rfl, by rw [change.stack]; rfl⟩
  frames := ⟨id, Frame.Continues.refl, by rw [change.frames, modifyTop_id]⟩
  handlers := change.handlers
  activations := change.activations
  regionsEntered := change.regionsEntered

theorem storeGlobal?_works {slot : Int} (stored : m.storeGlobal? slot v = some m') :
    m.Works 0 0 m' := by
  unfold storeGlobal? at stored
  obtain ⟨globals, _, rfl⟩ := Option.map_eq_some_iff.mp stored
  split
  · exact Works.elsewhere rfl rfl rfl rfl rfl
  · exact Works.elsewhere rfl rfl rfl rfl rfl

theorem declare_works (m : Machine) : m.Works 0 0 m.declare :=
  Works.elsewhere rfl rfl rfl rfl rfl

theorem withHost_works (m : Machine) (host : Host) : m.Works 0 0 { m with host := host } :=
  Works.elsewhere rfl rfl rfl rfl rfl

theorem setMemo_works (m : Machine) (key : MemoKey) (memo : Memo) :
    m.Works 0 0 (m.setMemo key memo) :=
  Works.elsewhere rfl rfl rfl rfl rfl

theorem jumpBy_works (m : Machine) (distance : Int) : m.Works 0 0 (m.jumpBy distance) :=
  Works.modifyFrame fun _ => ⟨rfl, rfl, rfl, rfl, rfl⟩

/-! ## Taking operands -/

theorem withOne_cases {f : Value → Machine → Effect} {e : Effect} (executed : m.withOne f = e)
    (sound : e ≠ .broken) : ∃ v rest, m.stack.items = v :: rest ∧ f v (m.drop 1) = e := by
  unfold withOne at executed
  split at executed
  · rename_i v rest items
    exact ⟨v, rest, items, executed⟩
  · exact absurd executed.symm sound

theorem withTwo_cases {f : Value → Value → Machine → Effect} {e : Effect}
    (executed : m.withTwo f = e) (sound : e ≠ .broken) :
    ∃ a b rest, m.stack.items = b :: a :: rest ∧ f a b (m.drop 2) = e := by
  unfold withTwo at executed
  split at executed
  · rename_i b a rest items
    exact ⟨a, b, rest, items, executed⟩
  · exact absurd executed.symm sound

theorem yield_done {r : Except Cause Value} (done : m.yield_ r = .done m') :
    ∃ v, r = .ok v ∧ m' = m.push v := by
  cases r with
  | ok v =>
      cases done
      exact ⟨v, rfl, rfl⟩
  | error cause => cases done

theorem yieldOn_done {r : Except Cause (Value × Heap)} (done : m.yieldOn r = .done m') :
    ∃ v heap, r = .ok (v, heap) ∧ m' = (m.withHeap heap).push v := by
  cases r with
  | ok answer =>
      obtain ⟨v, heap⟩ := answer
      cases done
      exact ⟨v, heap, rfl, rfl⟩
  | error cause => cases done

theorem yield_raised {r : Except Cause Value} {cause : Cause}
    (raised : m.yield_ r = .raised cause m') : m' = m := by
  cases r with
  | ok v => cases raised
  | error cause =>
      cases raised
      rfl

theorem yieldOn_raised {r : Except Cause (Value × Heap)} {cause : Cause}
    (raised : m.yieldOn r = .raised cause m') : m' = m := by
  cases r with
  | ok answer => cases raised
  | error cause =>
      cases raised
      rfl

/-! ## Calls and returns -/

theorem callNative_done {index : Int} {arguments : List Value}
    (done : m.callNative s index arguments = .done m') : m.Works 0 1 m' := by
  unfold callNative at done
  split at done
  · cases done
  · rename_i native _
    simp only at done
    split at done
    · cases done
    · cases done
      exact ((withHost_works m _).trans (declare_works _)).push _

theorem callNative_raised {index : Int} {arguments : List Value} {cause : Cause}
    (raised : m.callNative s index arguments = .raised cause m') : m.Raises 0 m' := by
  unfold callNative at raised
  split at raised
  · cases raised
    exact ⟨Stack.drop_zero.symm, rfl, rfl, rfl, rfl⟩
  · simp only at raised
    split at raised
    · cases raised
      exact ⟨Stack.drop_zero.symm, rfl, rfl, rfl, rfl⟩
    · cases raised

theorem enter?_activates {routine : Routine} {arguments : List Value} {index : Int}
    (listed : s.loaded.program.function? index = some (some routine.function))
    (room : m.isFull s = false) (entered : m.enter? routine arguments = some m') :
    ∃ called, m.Activates s called m' := by
  unfold enter? at entered
  simp only [Option.bind_eq_bind, Option.bind_eq_some_iff] at entered
  obtain ⟨chunk, present, slots, _, built⟩ := entered
  cases built
  exact ⟨_, ⟨routine, index, rfl, present, listed⟩, rfl, rfl, room, rfl, rfl, rfl, rfl, rfl⟩

theorem activate_done {routine : Routine} {arguments : List Value} {index : Int}
    (listed : s.loaded.program.function? index = some (some routine.function))
    (done : m.activate s routine arguments = .done m') : ∃ called, m.Activates s called m' := by
  unfold activate at done
  split at done
  · cases done
  · rename_i room
    split at done
    · rename_i entered
      cases done
      exact enter?_activates listed (Bool.eq_false_iff.mpr room) entered
    · cases done

theorem activate_raised {routine : Routine} {arguments : List Value} {cause : Cause}
    (raised : m.activate s routine arguments = .raised cause m') : m' = m := by
  unfold activate at raised
  split at raised
  · cases raised
    rfl
  · split at raised
    · cases raised
    · cases raised

/-- Asking for a remembered result touches none of the stacks. -/
theorem Activates.of_consulted {key : MemoKey} {memo : Memo} {called : Frame}
    (change : (m.setMemo key memo).Activates s called m') : m.Activates s called m' :=
  ⟨change.routine, change.stackStart, change.serial, change.room, change.stack, change.frames,
    change.handlers, change.activations, change.regionsEntered⟩

theorem callFunction_done {routine : Routine} {arguments : List Value} {index : Int}
    (done : m.callFunction s routine arguments = .done m')
    (listed : s.loaded.program.function? index = some (some routine.function)) :
    m.Works 0 1 m' ∨ ∃ called, m.Activates s called m' := by
  unfold callFunction at done
  split at done
  · exact .inr (activate_done listed done)
  · unfold consult at done
    simp only at done
    split at done
    · rename_i consulted
      obtain ⟨_, rfl⟩ := Prod.mk.inj consulted
      cases done
      exact .inl ((setMemo_works m _ _).push _)
    · rename_i consulted
      obtain ⟨_, rfl⟩ := Prod.mk.inj consulted
      obtain ⟨called, change⟩ := activate_done listed done
      exact .inr ⟨called, change.of_consulted⟩

theorem callFunction_raised {routine : Routine} {arguments : List Value} {cause : Cause}
    (raised : m.callFunction s routine arguments = .raised cause m') : m.Raises 0 m' := by
  unfold callFunction at raised
  split at raised
  · rw [activate_raised raised]
    exact ⟨Stack.drop_zero.symm, rfl, rfl, rfl, rfl⟩
  · unfold consult at raised
    simp only at raised
    split at raised
    · cases raised
    · rename_i consulted
      obtain ⟨_, rfl⟩ := Prod.mk.inj consulted
      rw [activate_raised raised]
      exact ⟨Stack.drop_zero.symm, rfl, rfl, rfl, rfl⟩

/-- Work on what is left after some values were dropped is work that takes these values. -/
theorem Works.of_drop {n : Nat} (change : (m.drop n).Works 0 put m') : m.Works n put m' :=
  ⟨change.stack, change.frames, change.handlers, change.activations, change.regionsEntered⟩

theorem Raises.of_drop {n : Nat} (change : (m.drop n).Raises 0 m') : m.Raises n m' :=
  ⟨change.stack.trans Stack.drop_zero, change.frames, change.handlers, change.activations,
    change.regionsEntered⟩

theorem call_done {count : Nat} (done : m.call s count = .done m') :
    m.Works (count + 1) 1 m' ∨ ∃ called, (m.drop (count + 1)).Activates s called m' := by
  unfold call at done
  split at done
  · cases done
  · simp only at done
    split at done
    · exact .inl (callNative_done done).of_drop
    · split at done
      · cases done
      · cases done
      · rename_i listed
        split at done
        · cases done
        · rcases callFunction_done done listed with work | begun
          · exact .inl work.of_drop
          · exact .inr begun
    · cases done

theorem call_raised {count : Nat} {cause : Cause} (raised : m.call s count = .raised cause m') :
    m.Raises (count + 1) m' := by
  have refused : m.Raises (count + 1) (m.drop (count + 1)) := ⟨rfl, rfl, rfl, rfl, rfl⟩
  unfold call at raised
  split at raised
  · cases raised
  · simp only at raised
    split at raised
    · exact (callNative_raised raised).of_drop
    · split at raised
      · cases raised
        exact refused
      · cases raised
      · split at raised
        · cases raised
          exact refused
        · exact (callFunction_raised raised).of_drop
    · cases raised
      exact refused

/-- Remembering a result changes nothing but the memos. -/
theorem remember_eq (s : Setup) (m : Machine) (f : Frame) (result : Value) :
    ∃ memos, m.remember s f result = { m with memos := memos } := by
  unfold remember
  split
  · split
    · exact ⟨m.memos, rfl⟩
    · exact ⟨_, rfl⟩
  · exact ⟨m.memos, rfl⟩

/-- Ending the innermost activation hands its result down, unless it was the last one. -/
theorem returnFrom_done {result : Value} (done : m.returnFrom s result = .done m') :
    ∃ ended, m.Returns ended result m' := by
  unfold returnFrom at done
  split at done
  · cases done
  · rename_i ended top
    obtain ⟨memos, remembered⟩ :=
      remember_eq s { m with stack := m.stack.truncate ended.stackStart } ended result
    simp only [remembered] at done
    split at done
    · cases done
    · rename_i inhabited
      cases done
      refine ⟨ended, top, ?_, rfl, rfl, rfl, rfl, rfl⟩
      rw [m.frames.height_eq]
      refine Nat.lt_of_not_le fun single => inhabited ?_
      simpa only [Stack.isEmpty, Stack.items_drop, List.isEmpty_iff, List.drop_eq_nil_iff]
        using single

theorem returnFrom_ne_raised {result : Value} {cause : Cause} :
    m.returnFrom s result ≠ .raised cause m' := by
  intro raised
  unfold returnFrom at raised
  split at raised
  · cases raised
  · simp only at raised
    split at raised
    · cases raised
    · cases raised

/-- An operand that lies above the activation's first value is lost with the others. -/
theorem Returns.of_drop {ended : Frame} {result : Value}
    (above : ended.stackStart < m.stack.height) (change : (m.drop 1).Returns ended result m') :
    m.Returns ended result m' where
  top := change.top
  nested := change.nested
  stack := by
    have cut : (m.stack.drop 1).truncate ended.stackStart = m.stack.truncate ended.stackStart :=
      Stack.truncate_drop (by omega)
    rw [← cut]
    exact change.stack
  frames := change.frames
  handlers := change.handlers
  activations := change.activations
  regionsEntered := change.regionsEntered

/-! ## All instructions -/

theorem beginTry_done (done : m.beginTry frame operand = .done m') :
    ∃ region, m.Enters frame region m' := by
  unfold beginTry at done
  split at done
  · cases done
  · rename_i region found
    cases done
    exact ⟨region, Array.mem_of_getElem? found, rfl, rfl, rfl, rfl, rfl⟩

theorem endTry_leaves (m : Machine) : m.Leaves m.endTry := by
  unfold endTry
  split
  · rename_i none_
    have items : m.handlers.items = [] := List.head?_eq_none_iff.mp none_
    refine ⟨rfl, ⟨id, Frame.Continues.refl, (modifyTop_id _).symm⟩, ?_, rfl, rfl⟩
    apply Stack.ext
    rw [Stack.items_drop, items]
    rfl
  · simp only
    split
    · rename_i h _ _
      exact ⟨rfl, ⟨fun f => { f with ip := h.region.elseEntry }, fun _ => ⟨rfl, rfl, rfl, rfl, rfl⟩,
        rfl⟩, rfl, rfl, rfl⟩
    · exact ⟨rfl, ⟨id, Frame.Continues.refl, (modifyTop_id _).symm⟩, rfl, rfl, rfl⟩

/-- An instruction that completes does so in one of the five ways. -/
theorem execute_done (current : ∃ g, m.frames.top? = some g ∧ frame.Continues g)
    (done : m.execute s frame op operand = .done m') : m.Completes s frame op operand m' := by
  unfold execute at done
  cases op with
  | nop | catch_ | endCatch =>
      cases done
      exact .works (by decide) (Works.refl m)
  | pop =>
      obtain ⟨v, _, _, executed⟩ := withOne_cases done (by simp)
      cases executed
      exact .works (by decide) (Works.drop m 1)
  | constant =>
      simp only at done
      split at done
      · cases done
        exact .works (by decide) ((Works.refl m).push _)
      · cases done
  | loadLocal =>
      cases done
      exact .works (by decide) ((Works.refl m).push _)
  | storeLocal =>
      obtain ⟨v, _, _, executed⟩ := withOne_cases done (by simp)
      split at executed
      · cases executed
        exact .works (by decide)
          ((Works.drop m 1).trans (Works.modifyFrame fun _ => ⟨rfl, rfl, rfl, rfl, rfl⟩))
      · cases executed
  | loadGlobal =>
      simp only at done
      split at done
      · cases done
        exact .works (by decide) ((Works.refl m).push _)
      · cases done
  | storeGlobal =>
      obtain ⟨v, _, _, executed⟩ := withOne_cases done (by simp)
      split at executed
      · rename_i stored
        cases executed
        exact .works (by decide) ((Works.drop m 1).trans (storeGlobal?_works stored))
      · cases executed
  | add | sub | mul | div | intDiv | mod | pow | equal | notEqual | greater | less | greaterEqual
  | lessEqual | in_ =>
      obtain ⟨a, b, _, _, executed⟩ := withTwo_cases done (by simp)
      obtain ⟨v, _, rfl⟩ := yield_done executed
      exact .works (by decide) ((Works.drop m 2).push v)
  | negate | arrayLength =>
      obtain ⟨v, _, _, executed⟩ := withOne_cases done (by simp)
      obtain ⟨w, _, rfl⟩ := yield_done executed
      exact .works (by decide) ((Works.drop m 1).push w)
  | not =>
      obtain ⟨v, _, _, executed⟩ := withOne_cases done (by simp)
      cases executed
      exact .works (by decide) ((Works.drop m 1).push _)
  | and | or =>
      obtain ⟨a, b, _, _, executed⟩ := withTwo_cases done (by simp)
      cases executed
      exact .works (by decide) ((Works.drop m 2).push _)
  | jump8 | jump16 | jump32 =>
      cases done
      exact .works (by decide) (jumpBy_works m operand)
  | jumpIfFalse8 | jumpIfFalse16 | jumpIfFalse32 =>
      obtain ⟨v, _, _, executed⟩ := withOne_cases done (by simp)
      cases executed
      refine .works (by decide) ((Works.drop m 1).trans ?_)
      split
      · exact Works.refl _
      · exact jumpBy_works _ operand
  | call =>
      rcases call_done done with work | ⟨called, begun⟩
      · exact .works (by decide) work
      · exact .calls rfl begun
  | return_ =>
      obtain ⟨g, top, continues⟩ := current
      simp only at done
      split at done
      · rename_i above
        obtain ⟨v, _, _, executed⟩ := withOne_cases done (by simp)
        obtain ⟨ended, change⟩ := returnFrom_done executed
        have same : g = ended := Option.some.inj (top.symm.trans change.top)
        subst same
        exact .returns rfl (Returns.of_drop (continues.stackStart ▸ above) change)
      · obtain ⟨ended, change⟩ := returnFrom_done done
        exact .returns rfl change
  | makeArray =>
      cases done
      exact .works (by decide)
        (((Works.drop m operand.toNat).trans (Works.withHeap _ _)).push _)
  | arrayElement =>
      obtain ⟨a, b, _, _, executed⟩ := withTwo_cases done (by simp)
      obtain ⟨v, heap, _, rfl⟩ := yieldOn_done executed
      exact .works (by decide) (((Works.drop m 2).trans (Works.withHeap _ heap)).push v)
  | clone =>
      obtain ⟨v, _, _, executed⟩ := withOne_cases done (by simp)
      cases executed
      exact .works (by decide) (((Works.drop m 1).trans (Works.withHeap _ _)).push _)
  | beginTry =>
      obtain ⟨region, change⟩ := beginTry_done done
      exact .enters rfl change
  | endTry =>
      cases done
      exact .leaves (.inl rfl) (endTry_leaves m)
  | throw =>
      obtain ⟨v, _, _, executed⟩ := withOne_cases done (by simp)
      cases executed
  | popHandler =>
      cases done
      exact .leaves (.inr rfl)
        ⟨rfl, ⟨id, Frame.Continues.refl, (modifyTop_id _).symm⟩, rfl, rfl, rfl⟩

/-- An instruction that raises a fault has taken its operands and done nothing else to the stacks. -/
theorem execute_raised {cause : Cause} (raised : m.execute s frame op operand = .raised cause m') :
    m.Raises (needed op operand) m' := by
  have untouched : m.Raises 0 m := ⟨Stack.drop_zero.symm, rfl, rfl, rfl, rfl⟩
  have dropped (n : Nat) : m.Raises n (m.drop n) := ⟨rfl, rfl, rfl, rfl, rfl⟩
  unfold execute at raised
  cases op with
  | nop | catch_ | endCatch | loadLocal | jump8 | jump16 | jump32 | makeArray | endTry
  | popHandler => cases raised
  | pop | not | jumpIfFalse8 | jumpIfFalse16 | jumpIfFalse32 | clone =>
      obtain ⟨v, _, _, executed⟩ := withOne_cases raised (by simp)
      cases executed
  | constant | loadGlobal =>
      simp only at raised
      split at raised
      · cases raised
      · cases raised
        exact untouched
  | storeLocal | storeGlobal =>
      obtain ⟨v, _, _, executed⟩ := withOne_cases raised (by simp)
      split at executed
      · cases executed
      · cases executed
  | add | sub | mul | div | intDiv | mod | pow | equal | notEqual | greater | less | greaterEqual
  | lessEqual | in_ =>
      obtain ⟨a, b, _, _, executed⟩ := withTwo_cases raised (by simp)
      rw [yield_raised executed]
      exact dropped 2
  | negate | arrayLength =>
      obtain ⟨v, _, _, executed⟩ := withOne_cases raised (by simp)
      rw [yield_raised executed]
      exact dropped 1
  | and | or =>
      obtain ⟨a, b, _, _, executed⟩ := withTwo_cases raised (by simp)
      cases executed
  | call => exact call_raised raised
  | return_ =>
      simp only at raised
      split at raised
      · obtain ⟨v, _, _, executed⟩ := withOne_cases raised (by simp)
        exact absurd executed returnFrom_ne_raised
      · exact absurd raised returnFrom_ne_raised
  | arrayElement =>
      obtain ⟨a, b, _, _, executed⟩ := withTwo_cases raised (by simp)
      rw [yieldOn_raised executed]
      exact dropped 2
  | beginTry =>
      simp only [beginTry] at raised
      split at raised
      · cases raised
        exact untouched
      · cases raised
  | throw =>
      obtain ⟨v, _, _, executed⟩ := withOne_cases raised (by simp)
      cases executed
      exact dropped 1

end Machine

end TableMachine
