import TableMachine.Machine.State

/-! # Calls and returns

A call takes the callee and its arguments from the stack. A function gets a new activation, unless
its result is remembered; a native runs at once. A return cuts the stack down to where the
activation began, drops the handlers it left active and puts the result on the stack.
-/

namespace TableMachine

/-- What an instruction did. -/
inductive Effect where
  /-- It is done. -/
  | done (m : Machine)
  /-- It raised a fault; its operands are gone from the stack. -/
  | raised (cause : Cause) (m : Machine)
  /-- It ended the run. -/
  | finished (result : Value) (m : Machine)
  /-- It used a part of the program that is missing or cannot exist. -/
  | broken

namespace Machine

/-! ## Declarations -/

/-- The name of the lowest declared global slot that holds a table. -/
def explicitNameOf? (m : Machine) (t : TableRef) : Option Text :=
  m.globals.toList.zipIdx.findSome? fun (v, slot) =>
    if v = .table t then m.explicitNames.get? slot else none

/-- A declared relation with its tables named; none where a table is held by no declared slot. -/
def resolveRelation? (m : Machine) (r : DeclaredRelation) : Option Relation := do
  let target ← m.explicitNameOf? r.key.table
  let source ← m.explicitNameOf? r.foreign.table
  some ⟨source, r.foreign.name, target, r.key.name⟩

/-- A declared primary key with its table named; none where no declared slot holds the table. -/
def resolvePrimaryKey? (m : Machine) (c : ColumnRef) : Option PrimaryKey := do
  let table ← m.explicitNameOf? c.table
  some ⟨table, c.name⟩

/-- The machine with the declarations of its channel added to those it has. -/
def declare (m : Machine) : Machine :=
  { m with
    relations := m.relations ++ m.host.channel.relations.filterMap m.resolveRelation?
    primaryKeys := m.primaryKeys ++ m.host.channel.primaryKeys.filterMap m.resolvePrimaryKey? }

/-! ## Natives -/

/-- The machine after a native call. The channel is empty when the native begins; what it declared
counts even when it failed. -/
def callNative (s : Setup) (m : Machine) (index : Int) (arguments : List Value) : Effect :=
  match if index < 0 then none else s.natives[index.toNat]? with
  | none => .raised (.nativeOutside index) m
  | some native =>
    let report := native.run m.host.reset arguments
    let m := { m with host := report.host }.declare
    match report.cause with
    | some cause => .raised cause { m with host := m.host.withoutCause }
    | none => .done (m.push report.value)

/-! ## Functions -/

/-- The value that a capture copies: null where the activation or the slot does not exist. -/
def captured (m : Machine) (c : Capture) : Value :=
  if c.depth < 0 then .null
  else match m.frames.items[c.depth.toNat]? with
    | some f => f.local_ c.source
    | none => .null

/-- The slots of a new activation: captures in order, then the arguments over them. -/
def newSlots? (m : Machine) (f : Function) (arguments : List Value) : Option (Array Value) := do
  let count := f.slotCount
  if maxValues < count then none
  else
    let blank := Array.replicate count.toNat Value.null
    let captured ← f.captures.foldlM (fun slots c =>
      Frame.storeSlot? slots c.target (m.captured c)) blank
    arguments.zipIdx.foldlM (fun slots (v, n) =>
      Frame.storeSlot? slots (f.paramStart + n) v) captured

/-- The machine with a new activation of a function. -/
def enter? (m : Machine) (routine : Routine) (arguments : List Value) : Option Machine := do
  let chunk ← routine.function.chunk
  let slots ← m.newSlots? routine.function arguments
  some { m with
    frames := m.frames.push {
      routine := some routine
      chunk := chunk
      ip := 0
      stackStart := m.stack.height
      slots := slots
      arguments := if routine.function.cacheable then some arguments else none
      started := 0
      serial := m.activations + 1 }
    activations := m.activations + 1 }

/-- The key under which a call's result is remembered, for functions that ask for it. -/
def callKey? (f : Function) (arguments : List Value) : Option Text :=
  if f.cacheable then Memo.key? arguments else none

/-- The machine after a function was asked for a remembered result, and the result. -/
def consult (m : Machine) (key : MemoKey) (text : Text) : Option Value × Machine :=
  let memo := (m.memo? key).getD {}
  (memo.find? text, m.setMemo key (memo.counted text))

/-- Whether a further activation would exceed the limit. -/
def isFull (s : Setup) (m : Machine) : Bool :=
  0 < s.config.maxFrames && s.config.maxFrames ≤ m.frames.height

/-- Begins an activation of a function, or refuses when too many are live. -/
def activate (s : Setup) (m : Machine) (routine : Routine) (arguments : List Value) : Effect :=
  if m.isFull s then
    .raised (.tooDeep s.config.maxFrames routine.function.name) m
  else match m.enter? routine arguments with
    | some m => .done m
    | none => .broken

/-- Calls a function whose arguments have been taken from the stack. -/
def callFunction (s : Setup) (m : Machine) (routine : Routine) (arguments : List Value) : Effect :=
  match callKey? routine.function arguments with
  | none => m.activate s routine arguments
  | some text =>
    match m.consult ⟨s.loaded.unit, routine.position⟩ text with
    | (some v, m) => .done (m.push v)
    | (none, m) => m.activate s routine arguments

/-- The instruction that calls, with the number of arguments. -/
def call (s : Setup) (m : Machine) (count : Nat) : Effect :=
  match m.stack.top? with
  | none => .broken
  | some callee =>
    let arguments := (m.stack.drop 1).latest count
    let m := m.drop (count + 1)
    match callee with
    | .native index => m.callNative s index arguments
    | .function index =>
      match s.loaded.program.function? index with
      | none => .raised (.functionOutside index) m
      | some none => .broken
      | some (some f) =>
        if f.arity ≠ count then .raised (.arityMismatch f.name f.arity count) m
        else m.callFunction s ⟨index.toNat, f⟩ arguments
    | v => .raised (.notCallable v.kind) m

/-! ## Returns -/

/-- The machine with the result of an ending activation remembered, where that is asked for. -/
def remember (s : Setup) (m : Machine) (f : Frame) (result : Value) : Machine :=
  match f.routine, f.arguments with
  | some routine, some arguments =>
    match callKey? routine.function arguments with
    | none => m
    | some text =>
      let key : MemoKey := ⟨s.loaded.unit, routine.position⟩
      m.setMemo key (((m.memo? key).getD {}).store text result)
  | _, _ => m

/-- Ends the innermost activation. -/
def returnFrom (s : Setup) (m : Machine) (result : Value) : Effect :=
  match m.frames.top? with
  | none => .broken
  | some frame =>
    let level := m.frames.height - 1
    let m := { m with stack := m.stack.truncate frame.stackStart }.remember s frame result
    let m := { m with
      handlers := m.handlers.dropWhile fun h => level ≤ h.frameIndex
      frames := m.frames.drop 1 }
    if m.frames.isEmpty then .finished result m else .done (m.push result)

end Machine

end TableMachine
