import TableMachine.Proofs.Remembering

/-! # Machines without what serves remembering

`cleared` takes from a function the mark that its results are remembered. `bare` takes from a machine what
only remembering needs, and the numbers of activations, which count differently once a call is answered
from memory. The main statement is that a step which finds no remembered result does the same to a bare
machine under the cleared program: whatever else the instruction does, marks and memos play no part in it.
-/

namespace TableMachine

/-! ## Stacks, item by item -/

namespace Stack

variable {α β : Type} {s : Stack α} {x : α} {n : Nat}

def map (f : α → β) (s : Stack α) : Stack β := ⟨s.items.map f, s.height, by simp [s.height_eq]⟩

variable {f : α → β}

@[simp] theorem items_map : (s.map f).items = s.items.map f := rfl

@[simp] theorem height_map : (s.map f).height = s.height := rfl

@[simp] theorem map_map {γ : Type} {g : β → γ} : (s.map f).map g = s.map (g ∘ f) := by
  apply ext
  simp

@[simp] theorem map_push : (s.push x).map f = (s.map f).push (f x) := rfl

@[simp] theorem map_ofList (items : List α) : (ofList items).map f = ofList (items.map f) := by
  apply ext
  simp

@[simp] theorem map_drop : (s.drop n).map f = (s.map f).drop n := by
  apply ext
  simp [List.map_drop]

@[simp] theorem map_truncate : (s.truncate n).map f = (s.map f).truncate n := map_drop

@[simp] theorem top?_map : (s.map f).top? = s.top?.map f := by
  simp [top?]

@[simp] theorem get?_map : (s.map f).get? n = (s.get? n).map f := by
  unfold get?
  rw [height_map, items_map, List.getElem?_map]
  split <;> rfl

@[simp] theorem isEmpty_map : (s.map f).isEmpty = s.isEmpty := by
  simp [isEmpty]

theorem map_modifyTop {change : α → α} (image : β → β) (commutes : ∀ x, f (change x) = image (f x)) :
    (s.modifyTop change).map f = (s.map f).modifyTop image := by
  apply ext
  rw [items_map, items_modifyTop, items_modifyTop, items_map]
  cases s.items with
  | nil => rfl
  | cons x rest => simp [commutes]

theorem map_dropWhile {p : α → Bool} {q : β → Bool} (same : ∀ x, q (f x) = p x) :
    (s.dropWhile p).map f = (s.map f).dropWhile q := by
  apply ext
  have composed : q ∘ f = p := funext same
  simp only [dropWhile, map_ofList, items_ofList, items_map, List.dropWhile_map, composed]

end Stack

/-! ## Clearing -/

/-- The function without the mark that its results are remembered. -/
def Function.cleared (f : Function) : Function := { f with cacheable := false }

def Routine.cleared (r : Routine) : Routine := { r with function := r.function.cleared }

def Program.cleared (p : Program) : Program :=
  { p with functions := p.functions.map (Option.map Function.cleared) }

def Setup.cleared (s : Setup) : Setup :=
  { s with loaded := { s.loaded with program := s.loaded.program.cleared } }

/-- The activation without what its result is remembered by. -/
def Frame.bare (f : Frame) : Frame :=
  { f with routine := f.routine.map Routine.cleared, arguments := none, serial := 0 }

def Handler.bare (h : Handler) : Handler := { h with owner := 0 }

namespace Machine

/-- The machine without remembered results and without the numbers of its activations. -/
def bare (m : Machine) : Machine :=
  { m with
    frames := m.frames.map Frame.bare
    handlers := m.handlers.map Handler.bare
    memos := []
    activations := 0 }

end Machine

def Effect.bare : Effect → Effect
  | done m => .done m.bare
  | raised cause m => .raised cause m.bare
  | finished result m => .finished result m.bare
  | broken => .broken

def Machine.Dispatched.bare : Machine.Dispatched → Machine.Dispatched
  | caught m => .caught m.bare
  | uncaught => .uncaught
  | broken => .broken

def Machine.Outcome.bare : Machine.Outcome → Machine.Outcome
  | next m => .next m.bare
  | finished result m => .finished result m.bare
  | failed fault m => .failed fault m.bare
  | broken => .broken

@[simp] theorem Function.cleared_cleared (f : Function) : f.cleared.cleared = f.cleared := rfl

@[simp] theorem Setup.cleared_cleared (s : Setup) : s.cleared.cleared = s.cleared := by
  have twice : Option.map Function.cleared ∘ Option.map Function.cleared =
      Option.map Function.cleared := by
    funext f
    cases f <;> rfl
  simp only [Setup.cleared, Program.cleared, Array.map_map, twice]

theorem Program.function?_cleared (p : Program) (index : Int) :
    p.cleared.function? index = (p.function? index).map (Option.map Function.cleared) := by
  unfold Program.function? Program.cleared
  split
  · rfl
  · rw [Array.getElem?_map]

theorem callKey?_cleared (f : Function) (arguments : List Value) :
    Machine.callKey? f.cleared arguments = none := rfl

namespace Frame

variable (f : Frame)

@[simp] theorem bare_bare : f.bare.bare = f.bare := by
  cases routine : f.routine <;> simp [bare, routine, Routine.cleared]

@[simp] theorem bare_comp_bare : bare ∘ bare = bare := funext bare_bare

@[simp] theorem chunk_bare : f.bare.chunk = f.chunk := rfl

@[simp] theorem ip_bare : f.bare.ip = f.ip := rfl

@[simp] theorem started_bare : f.bare.started = f.started := rfl

@[simp] theorem name_bare : f.bare.name = f.name := by
  unfold name bare
  cases f.routine <;> rfl

end Frame

@[simp] theorem Handler.bare_comp_bare : Handler.bare ∘ Handler.bare = Handler.bare := rfl

@[simp] theorem Handler.frameIndex_bare (h : Handler) : h.bare.frameIndex = h.frameIndex := rfl

namespace Machine

variable {s : Setup} {m m' : Machine} {frame f : Frame} {op : Opcode} {operand : Int} {cause : Cause}
  {i : Chunk.Instruction} {result : Value}

@[simp] theorem stack_bare : m.bare.stack = m.stack := rfl

@[simp] theorem frames_bare : m.bare.frames = m.frames.map Frame.bare := rfl

@[simp] theorem handlers_bare : m.bare.handlers = m.handlers.map Handler.bare := rfl

@[simp] theorem globals_bare : m.bare.globals = m.globals := rfl

@[simp] theorem globalNames_bare : m.bare.globalNames = m.globalNames := rfl

@[simp] theorem host_bare : m.bare.host = m.host := rfl

@[simp] theorem heap_bare : m.bare.heap = m.heap := rfl

@[simp] theorem bare_bare (m : Machine) : m.bare.bare = m.bare := by
  unfold bare
  simp only [Stack.map_map, Frame.bare_comp_bare, Handler.bare_comp_bare]
@[simp] theorem push_bare (v : Value) : (m.push v).bare = m.bare.push v := rfl

@[simp] theorem drop_bare (n : Nat) : (m.drop n).bare = m.bare.drop n := rfl

@[simp] theorem withHeap_bare (heap : Heap) : (m.withHeap heap).bare = m.bare.withHeap heap := rfl

theorem modifyFrame_bare {change : Frame → Frame} (commutes : ∀ f, (change f).bare = change f.bare) :
    (m.modifyFrame change).bare = m.bare.modifyFrame change := by
  unfold bare modifyFrame
  rw [Stack.map_modifyTop change commutes]

@[simp] theorem jumpBy_bare (distance : Int) : (m.jumpBy distance).bare = m.bare.jumpBy distance :=
  modifyFrame_bare fun _ => rfl

@[simp] theorem jumpTo_bare (offset : Int) : (m.jumpTo offset).bare = m.bare.jumpTo offset :=
  modifyFrame_bare fun _ => rfl

@[simp] theorem trace_bare : m.bare.trace = m.trace := by
  unfold trace
  rw [frames_bare, Stack.items_map, List.map_map]
  apply List.map_congr_left
  intro f _
  rw [Function.comp_apply, Frame.name_bare]
  rfl

/-! ## Instructions -/

theorem done_bare (m : Machine) : Effect.bare (.done m) = Effect.bare (.done m.bare) :=
  congrArg Effect.done (bare_bare m).symm

theorem raised_bare (cause : Cause) (m : Machine) :
    Effect.bare (.raised cause m) = Effect.bare (.raised cause m.bare) :=
  congrArg (Effect.raised cause) (bare_bare m).symm

theorem withOne_bare {first second : Value → Machine → Effect}
    (each : ∀ v, (first v (m.drop 1)).bare = (second v (m.bare.drop 1)).bare) :
    (m.withOne first).bare = (m.bare.withOne second).bare := by
  unfold withOne
  rw [stack_bare]
  cases m.stack.items with
  | nil => rfl
  | cons v rest => exact each v

theorem withTwo_bare {first second : Value → Value → Machine → Effect}
    (each : ∀ a b, (first a b (m.drop 2)).bare = (second a b (m.bare.drop 2)).bare) :
    (m.withTwo first).bare = (m.bare.withTwo second).bare := by
  unfold withTwo
  rw [stack_bare]
  match m.stack.items with
  | [] | [_] => rfl
  | b :: a :: rest => exact each a b

theorem yield_bare (r : Except Cause Value) : (m.yield_ r).bare = (m.bare.yield_ r).bare := by
  cases r <;> simp [yield_, Effect.bare]

theorem yieldOn_bare (r : Except Cause (Value × Heap)) :
    (m.yieldOn r).bare = (m.bare.yieldOn r).bare := by
  cases r <;> simp [yieldOn, Effect.bare]

theorem storeGlobal?_bare (slot : Int) (v : Value) :
    m.bare.storeGlobal? slot v = (m.storeGlobal? slot v).map bare := by
  unfold storeGlobal?
  rw [globals_bare, globalNames_bare, heap_bare]
  cases Frame.storeSlot? m.globals slot v with
  | none => rfl
  | some globals =>
      cases v with
      | table r => cases m.globalNames.get? slot <;> rfl
      | _ => rfl

theorem callNative_bare (index : Int) (arguments : List Value) :
    (m.callNative s index arguments).bare = (m.bare.callNative s.cleared index arguments).bare := by
  have natives : s.cleared.natives = s.natives := rfl
  unfold callNative
  rw [natives, host_bare]
  cases (if index < 0 then none else s.natives[index.toNat]?) with
  | none => exact raised_bare _ m
  | some native =>
      simp only
      cases (native.run m.host.reset arguments).cause with
      | none => exact done_bare (push (declare _) _)
      | some cause => exact raised_bare cause { declare _ with host := _ }

/-! ## Calls -/

theorem captured_bare (c : Capture) : m.bare.captured c = m.captured c := by
  unfold captured
  rw [frames_bare, Stack.items_map, List.getElem?_map]
  split
  · rfl
  · cases m.frames.items[c.depth.toNat]? <;> rfl

theorem newSlots?_bare (f : Function) (arguments : List Value) :
    m.bare.newSlots? f.cleared arguments = m.newSlots? f arguments := by
  unfold newSlots?
  simp only [captured_bare]
  rfl

/-- The activation that a call begins on `m`. -/
def begun (m : Machine) (routine : Routine) (chunk : Chunk) (slots : Array Value)
    (arguments : List Value) : Machine :=
  { m with
    frames := m.frames.push {
      routine := some routine
      chunk := chunk
      ip := 0
      stackStart := m.stack.height
      slots := slots
      arguments := if routine.function.cacheable then some arguments else none
      started := 0
      serial := m.activations + 1 }
    activations := m.activations + 1 }

theorem enter?_eq (m : Machine) (routine : Routine) (arguments : List Value) :
    m.enter? routine arguments = routine.function.chunk.bind fun chunk =>
      (m.newSlots? routine.function arguments).map fun slots =>
        m.begun routine chunk slots arguments := by
  unfold enter?
  cases routine.function.chunk with
  | none => rfl
  | some chunk => cases m.newSlots? routine.function arguments <;> rfl

theorem begun_bare (routine : Routine) (chunk : Chunk) (slots : Array Value) (arguments : List Value) :
    (m.begun routine chunk slots arguments).bare =
      (m.bare.begun routine.cleared chunk slots arguments).bare := by
  unfold begun
  simp only [bare, Stack.map_push, Stack.map_map, Frame.bare_comp_bare, Handler.bare_comp_bare]
  rfl

theorem activate_bare (routine : Routine) (arguments : List Value) :
    (m.activate s routine arguments).bare =
      (m.bare.activate s.cleared routine.cleared arguments).bare := by
  have full : m.bare.isFull s.cleared = m.isFull s := rfl
  have slots : m.bare.newSlots? routine.cleared.function arguments =
      m.newSlots? routine.function arguments := newSlots?_bare routine.function arguments
  have chunk : routine.cleared.function.chunk = routine.function.chunk := rfl
  unfold activate
  rw [full, enter?_eq, enter?_eq, slots, chunk]
  split
  · exact raised_bare _ m
  · cases routine.function.chunk with
    | none => rfl
    | some chunk =>
        cases m.newSlots? routine.function arguments with
        | none => rfl
        | some slots => exact congrArg Effect.done (begun_bare routine chunk slots arguments)

theorem consult_bare (key : MemoKey) (text : Text) : (m.consult key text).2.bare = m.bare := rfl

/-- A call of a function that finds no remembered result. -/
theorem callFunction_bare {routine : Routine} {arguments : List Value}
    (fresh : ∀ text, callKey? routine.function arguments = some text →
      m.remembered? ⟨s.loaded.unit, routine.position⟩ text = none) :
    (m.callFunction s routine arguments).bare =
      (m.bare.callFunction s.cleared routine.cleared arguments).bare := by
  have plain : m.bare.callFunction s.cleared routine.cleared arguments =
      m.bare.activate s.cleared routine.cleared arguments := rfl
  rw [plain]
  unfold callFunction
  cases keyed : callKey? routine.function arguments with
  | none => exact activate_bare routine arguments
  | some text =>
      have missed : m.consult ⟨s.loaded.unit, routine.position⟩ text =
          (none, (m.consult ⟨s.loaded.unit, routine.position⟩ text).2) :=
        Prod.ext ((consult_fst m _ text).trans (fresh text keyed)) rfl
      simp only
      rw [missed]
      exact activate_bare routine arguments

/-- The call with `count` arguments that the machine is about to make finds no remembered result. -/
def Fresh (s : Setup) (m : Machine) (count : Nat) : Prop :=
  ∀ index function text, m.stack.top? = some (.function index) →
    s.loaded.program.function? index = some (some function) → function.arity = count →
    callKey? function ((m.stack.drop 1).latest count) = some text →
    m.remembered? ⟨s.loaded.unit, index.toNat⟩ text = none

theorem call_bare {count : Nat} (fresh : m.Fresh s count) :
    (m.call s count).bare = (m.bare.call s.cleared count).bare := by
  have functions (index : Int) := s.loaded.program.function?_cleared index
  unfold call
  rw [stack_bare]
  cases top : m.stack.top? with
  | none => rfl
  | some callee =>
      cases callee with
      | native index => exact callNative_bare index _
      | function index =>
          have listed : s.cleared.loaded.program.function? index = _ := functions index
          simp only
          rw [listed]
          cases found : s.loaded.program.function? index with
          | none => exact raised_bare _ (m.drop (count + 1))
          | some entry =>
              cases entry with
              | none => rfl
              | some f =>
                  show Effect.bare (if f.arity ≠ count then _ else _) =
                    Effect.bare (if f.arity ≠ count then _ else _)
                  split
                  · exact raised_bare _ (m.drop (count + 1))
                  · rename_i arity
                    exact callFunction_bare fun text keyed =>
                      fresh index f text top found (not_not.mp arity) keyed
      | _ => exact raised_bare _ (m.drop (count + 1))

/-! ## Returns and handlers -/

/-- The machine without its innermost activation `f`, whose result is remembered if that is asked for. -/
def unwound (s : Setup) (m : Machine) (f : Frame) (result : Value) : Machine :=
  { m with
    stack := m.stack.truncate f.stackStart
    frames := m.frames.drop 1
    handlers := m.handlers.dropWhile fun h => m.topIndex ≤ h.frameIndex
    memos := (m.remember s f result).memos }

theorem returnFrom_eq (s : Setup) (result : Value) (top : m.frames.top? = some f) :
    m.returnFrom s result =
      if (m.frames.drop 1).isEmpty then .finished result (m.unwound s f result)
      else .done ((m.unwound s f result).push result) := by
  obtain ⟨memos, remembered⟩ :=
    remember_eq s { m with stack := m.stack.truncate f.stackStart } f result
  have stored : memos = (m.remember s f result).memos :=
    (congrArg Machine.memos remembered).symm.trans (remember_memos rfl (.refl f))
  unfold returnFrom
  simp only [top, remembered, stored]
  rfl

theorem unwound_bare : (m.unwound s f result).bare = m.bare.unwound s.cleared f.bare result := by
  have forgotten : (m.bare.remember s.cleared f.bare result).memos = [] := by
    unfold remember Frame.bare
    cases f.routine <;> rfl
  have level : (m.handlers.dropWhile fun h => m.topIndex ≤ h.frameIndex).map Handler.bare =
      (m.handlers.map Handler.bare).dropWhile fun h => m.topIndex ≤ h.frameIndex :=
    Stack.map_dropWhile fun _ => rfl
  unfold unwound
  rw [forgotten]
  simp only [bare, Stack.map_drop, level]
  rfl

theorem returnFrom_bare (result : Value) :
    (m.returnFrom s result).bare = (m.bare.returnFrom s.cleared result).bare := by
  cases top : m.frames.top? with
  | none => simp only [returnFrom, frames_bare, Stack.top?_map, top, Option.map_none]
  | some f =>
      have top' : m.bare.frames.top? = some f.bare := by
        rw [frames_bare, Stack.top?_map, top]
        rfl
      rw [returnFrom_eq s result top, returnFrom_eq s.cleared result top', frames_bare,
        ← Stack.map_drop, Stack.isEmpty_map, ← unwound_bare]
      split
      · exact congrArg (Effect.finished result) (bare_bare _).symm
      · exact done_bare (push _ _)

theorem beginTry_bare (frame : Frame) (index : Int) :
    (m.beginTry frame index).bare = (m.bare.beginTry frame.bare index).bare := by
  unfold beginTry
  rw [Frame.chunk_bare]
  cases frame.chunk.regions.entries[index.toNat]? with
  | none => exact raised_bare _ m
  | some region =>
      simp only [Effect.bare, bare, Stack.map_push, Stack.map_map, Frame.bare_comp_bare,
        Handler.bare_comp_bare]
      rfl

theorem endTry_bare : m.endTry.bare = m.bare.endTry := by
  unfold endTry
  rw [handlers_bare, Stack.top?_map]
  cases m.handlers.top? with
  | none => rfl
  | some h =>
      have left : ({ m with handlers := m.handlers.drop 1 } : Machine).bare =
          { m.bare with handlers := (m.handlers.map Handler.bare).drop 1 } := by
        simp only [bare, Stack.map_drop]
      have fired : h.bare.fired = h.fired := rfl
      have region : h.bare.region = h.region := rfl
      simp only [Option.map_some, fired, region]
      split
      · rw [jumpTo_bare, left]
      · exact left

/-- Marks and memos play no part in an instruction that finds no remembered result. -/
theorem execute_bare (fresh : op = .call → m.Fresh s operand.toNat) :
    (m.execute s frame op operand).bare =
      (m.bare.execute s.cleared frame.bare op operand).bare := by
  unfold execute
  cases op with
  | nop | catch_ | endCatch => exact done_bare m
  | pop => exact withOne_bare fun _ => done_bare _
  | constant =>
      simp only [Frame.chunk_bare]
      cases frame.chunk.constants.entries[operand.toNat]? with
      | none => exact raised_bare _ m
      | some k => exact done_bare (m.push k.value)
  | loadLocal => exact done_bare (m.push (frame.local_ operand))
  | storeLocal =>
      refine withOne_bare fun v => ?_
      have slots : frame.bare.setLocal? operand v = (frame.setLocal? operand v).map Frame.bare := by
        unfold Frame.setLocal?
        rw [Option.map_map]
        rfl
      rw [slots]
      cases frame.setLocal? operand v with
      | none => rfl
      | some stored =>
          have stores : ((m.drop 1).modifyFrame fun f => { f with slots := stored.slots }).bare =
              (m.bare.drop 1).modifyFrame fun f => { f with slots := stored.slots } :=
            modifyFrame_bare fun _ => rfl
          exact (done_bare _).trans (congrArg (fun m => Effect.bare (.done m)) stores)
  | loadGlobal =>
      simp only [globals_bare, globalNames_bare]
      cases m.globals[operand.toNat]? with
      | none => exact raised_bare _ m
      | some v => exact done_bare (m.push v)
  | storeGlobal =>
      refine withOne_bare fun v => ?_
      rw [← drop_bare, storeGlobal?_bare]
      cases (m.drop 1).storeGlobal? operand v with
      | none => rfl
      | some stored => exact done_bare stored
  | add | sub | mul | div | intDiv | mod | pow | equal | notEqual | greater | less | greaterEqual
  | lessEqual | in_ => exact withTwo_bare fun _ _ => yield_bare _
  | negate | arrayLength => exact withOne_bare fun _ => yield_bare _
  | not => exact withOne_bare fun _ => done_bare (push _ _)
  | and | or => exact withTwo_bare fun _ _ => done_bare (push _ _)
  | jump8 | jump16 | jump32 => exact (done_bare _).trans (by rw [jumpBy_bare])
  | jumpIfFalse8 | jumpIfFalse16 | jumpIfFalse32 =>
      refine withOne_bare fun v => ?_
      have heap : (m.bare.drop 1).heap = (m.drop 1).heap := rfl
      rw [heap]
      split
      · exact done_bare _
      · exact (done_bare _).trans (by rw [jumpBy_bare, drop_bare])
  | call => exact call_bare (fresh rfl)
  | return_ =>
      have start : frame.bare.stackStart = frame.stackStart := rfl
      simp only [start, stack_bare]
      split
      · exact withOne_bare fun v => returnFrom_bare v
      · exact returnFrom_bare .null
  | makeArray => exact done_bare (push (withHeap _ _) _)
  | arrayElement => exact withTwo_bare fun _ _ => yieldOn_bare _
  | clone => exact withOne_bare fun _ => done_bare (push (withHeap _ _) _)
  | beginTry => exact beginTry_bare frame operand
  | endTry => exact (done_bare _).trans (by rw [endTry_bare])
  | throw => exact withOne_bare fun _ => raised_bare _ _
  | popHandler =>
      refine (done_bare _).trans ?_
      simp only [bare, Stack.map_drop]

/-! ## Dispatch -/

theorem clauseFor?_bare (t : ErrorType) (site : Int) (h : Handler) :
    m.bare.clauseFor? t site h.bare = m.clauseFor? t site h := by
  have eligible : m.bare.isEligible site h.bare = m.isEligible site h := rfl
  unfold clauseFor?
  rw [eligible, Handler.frameIndex_bare, frames_bare, Stack.get?_map]
  split
  · cases m.frames.get? h.frameIndex <;> rfl
  · rfl

theorem catcher?_bare (t : ErrorType) (site : Int) (handlers : List Handler) :
    m.bare.catcher? t site (handlers.map Handler.bare) =
      (m.catcher? t site handlers).map fun (h, clause, older) =>
        (h.bare, clause, older.map Handler.bare) := by
  induction handlers with
  | nil => rfl
  | cons h older ih =>
      rw [List.map_cons, catcher?, catcher?, clauseFor?_bare]
      cases m.clauseFor? t site h with
      | none => exact ih
      | some clause => rfl

theorem enterCatch?_bare (owner : Frame) (clause : CatchClause) (message : Text) :
    enterCatch? owner.bare clause message = (enterCatch? owner clause message).map Frame.bare := by
  cases binds : clause.binds with
  | true =>
      rw [enterCatch?_of_binds binds, enterCatch?_of_binds binds, Option.map_map]
      rfl
  | false =>
      rw [enterCatch?_of_not_binds binds, enterCatch?_of_not_binds binds]
      rfl

theorem dispatch_bare (cause : Cause) (site : Int) :
    m.bare.dispatch cause site = (m.dispatch cause site).bare := by
  have caught := m.catcher?_bare cause.errorType site m.handlers.items
  unfold dispatch
  rw [handlers_bare, Stack.items_map, caught]
  cases m.catcher? cause.errorType site m.handlers.items with
  | none => rfl
  | some found =>
      obtain ⟨h, clause, older⟩ := found
      simp only [Option.map_some, Handler.frameIndex_bare, frames_bare, ← Stack.map_truncate,
        Stack.top?_map]
      cases (m.frames.truncate (h.frameIndex + 1)).top? with
      | none => rfl
      | some owner =>
          simp only [Option.map_some, enterCatch?_bare]
          cases enterCatch? owner clause cause.message with
          | none => rfl
          | some bound =>
              simp only [Option.map_some, Dispatched.bare, bare]
              rw [Stack.map_modifyTop (fun _ => bound.bare) fun _ => rfl, Stack.map_ofList]
              rfl

/-! ## Steps -/

theorem raise_bare (cause : Cause) (site : Int) :
    (m.raise frame cause site).bare = (m.bare.raise frame.bare cause site).bare := by
  have fault (line : Int) : m.bare.faultAt cause line = m.faultAt cause line := by
    unfold faultAt
    rw [trace_bare]
  unfold raise
  rw [dispatch_bare]
  cases m.dispatch cause site with
  | caught m' => exact congrArg Outcome.next (bare_bare m').symm
  | uncaught =>
      simp only [Dispatched.bare, Outcome.bare, fault, Frame.chunk_bare, bare_bare]
  | broken => rfl

theorem endOfCode_bare : (m.endOfCode s).bare = (m.bare.endOfCode s.cleared).bare := by
  have returned := returnFrom_bare (m := m) (s := s) .null
  unfold endOfCode
  rw [frames_bare, Stack.height_map, stack_bare]
  split
  · have ended : ({ m.drop 1 with frames := .empty } : Machine).bare =
        { m.bare.drop 1 with frames := .empty } := rfl
    exact congrArg (Outcome.finished _) ((bare_bare _).symm.trans (congrArg bare ended))
  · cases first : m.returnFrom s .null with
    | raised => exact absurd first returnFrom_ne_raised
    | _ =>
        rw [first] at returned
        cases second : m.bare.returnFrom s.cleared .null <;> rw [second] at returned <;>
          simp_all [Effect.bare, Outcome.bare]

theorem settled_bare {first second : Effect} {site : Int} (same : first.bare = second.bare) :
    (settled frame site first).bare = (settled frame.bare site second).bare := by
  cases first <;> cases second <;> injection same
  · rename_i same
    exact congrArg Outcome.next same
  · rename_i cause same
    subst cause
    simp only [settled]
    rw [raise_bare, same, ← Frame.bare_bare frame, ← raise_bare, Frame.bare_bare]
  · rename_i result same
    subst result
    exact congrArg (Outcome.finished _) same
  · rfl

theorem fetched_bare : (m.fetched frame i).bare = m.bare.fetched frame.bare i :=
  modifyFrame_bare fun _ => rfl

theorem perform_bare
    (fresh : i.op = .call → i.operand.toNat + 1 ≤ m.stack.height → m.Fresh s i.operand.toNat) :
    (m.perform s frame frame.ip.toNat i).bare =
      (m.bare.perform s.cleared frame.bare frame.bare.ip.toNat i).bare := by
  rw [perform_eq, perform_eq, ← fetched_bare, stack_bare, Frame.chunk_bare, Frame.ip_bare]
  split
  · simp only [Outcome.bare, faultAt, trace_bare, bare_bare]
  · rename_i enough
    refine settled_bare (execute_bare fun call => fresh call ?_)
    rw [call] at enough
    exact Nat.le_of_not_lt enough

/-- The next step answers no call from memory. -/
def Unanswered (s : Setup) (m : Machine) : Prop :=
  ∀ frame i index function v, m.Calls s frame i index function → ¬ m.Hits s i index function v

theorem Unanswered.fresh (unanswered : m.Unanswered s) (fetches : m.Fetches frame i)
    (call : i.op = .call) (enough : i.operand.toNat + 1 ≤ m.stack.height) :
    m.Fresh s i.operand.toNat := by
  intro index function text callee listed arity keyed
  by_contra found
  obtain ⟨v, found⟩ := Option.ne_none_iff_exists'.mp found
  exact unanswered frame i index function v ⟨fetches, call, enough, callee, listed, arity⟩
    ⟨text, keyed, (consult_fst m _ text).trans found⟩

/-- Marks and memos play no part in a step that answers no call from memory. -/
theorem step_bare (unanswered : m.Unanswered s) : (m.step s).bare = (m.bare.step s.cleared).bare := by
  unfold step
  rw [frames_bare, Stack.top?_map]
  cases top : m.frames.top? with
  | none => rfl
  | some frame =>
      have chunk : frame.bare.chunk = frame.chunk := rfl
      have ip : frame.bare.ip = frame.ip := rfl
      simp only [Option.map_some, chunk, ip, Frame.started_bare]
      split
      · exact endOfCode_bare
      · split
        · simp only [Outcome.bare, faultAt, trace_bare, bare_bare]
        · rename_i pointer
          cases instruction : frame.chunk.instruction? frame.ip.toNat with
          | none => simp only [Outcome.bare, faultAt, trace_bare, bare_bare]
          | some i =>
              have fetches : m.Fetches frame i := ⟨top, Int.not_lt.mp pointer, instruction⟩
              exact perform_bare (unanswered.fresh fetches)

/-- Two machines that differ in marks and memos only take the same step, one under the program and the
other under the cleared program. -/
theorem step_cleared {c u : Machine} (same : c.bare = u.bare) (unanswered : c.Unanswered s) :
    (c.step s).bare = (u.step s.cleared).bare := by
  have plain : u.Unanswered s.cleared := by
    rintro frame i index function v calls ⟨text, keyed, _⟩
    have listed := calls.listed
    rw [show s.cleared.loaded.program = s.loaded.program.cleared from rfl,
      Program.function?_cleared] at listed
    obtain ⟨entry, _, cleared⟩ := Option.map_eq_some_iff.mp listed
    obtain ⟨f, _, rfl⟩ := Option.map_eq_some_iff.mp cleared
    cases (callKey?_cleared f _).symm.trans keyed
  rw [step_bare unanswered, step_bare plain, same, Setup.cleared_cleared]

end Machine

end TableMachine
