import TableMachine.Code.Program
import TableMachine.Fault
import TableMachine.Machine.Host
import TableMachine.Machine.Stack
import TableMachine.Memo

/-! # The state of a machine

What a run changes, step by step: the value stack, the live activations, the active handlers, and
what outlives the run: globals, declarations and remembered results. What stays fixed during a run
is in `Setup`.
-/

namespace TableMachine

/-! ## What is fixed during a run -/

/-- The limits and sizes of a machine. -/
structure Config where
  /-- Room for values that is set aside at the start. -/
  stackSize : Int := 1024
  /-- Room for activations that is set aside at the start. -/
  frameCapacity : Int := 64
  /-- The greatest number of live activations; zero or less for no limit. -/
  maxFrames : Int := 0
  /-- Whether every instruction is logged. -/
  trace : Bool := false
deriving DecidableEq, Repr

/-- The configuration of a machine that was given none. -/
def Config.standard : Config := {}

/-- The greatest number of values that can be set aside at once. -/
def maxValues : Nat := pow2 42

/-- The greatest number of activations that can be set aside at once. -/
def maxActivations : Nat := pow2 45

/-- Whether the machine can set aside what the configuration asks for. -/
def Config.isFeasible (c : Config) : Bool :=
  c.stackSize ≤ maxValues && c.frameCapacity ≤ maxActivations

/-- A program with the number it was loaded under. Remembered results belong to one loading. -/
structure Loaded where
  unit : Nat
  program : Program

/-- What a run does not change. -/
structure Setup where
  config : Config
  natives : Array Native
  loaded : Loaded

/-! ## Activations and handlers -/

/-- A function of the running program, by its position. -/
structure Routine where
  position : Nat
  function : Function
deriving DecidableEq, Repr

/-- One activation of a function, or of the main chunk. -/
structure Frame where
  /-- The function; none for the main chunk. -/
  routine : Option Routine
  chunk : Chunk
  /-- The offset of the next instruction. -/
  ip : Int
  /-- The height of the value stack when the activation began. -/
  stackStart : Nat
  /-- Captured variables, parameters, other locals. -/
  slots : Array Value
  /-- The arguments, kept to remember the result by. -/
  arguments : Option (List Value)
  /-- The offset of the instruction that was started last. -/
  started : Int
  /-- Which activation of the run this is, counted from zero. -/
  serial : Nat
deriving DecidableEq, Repr

namespace Frame

/-- The activation of a main chunk. -/
def root (chunk : Chunk) : Frame where
  routine := none
  chunk := chunk
  ip := 0
  stackStart := 0
  slots := #[]
  arguments := none
  started := 0
  serial := 0

/-- The name in traces. -/
def name (f : Frame) : Text :=
  match f.routine with
  | some routine => routine.function.name
  | none => "<main>"

/-- The line of the instruction that was started last. -/
def line (f : Frame) : Int := f.chunk.lineAt f.started

/-- The value of a slot, or null where there is none. -/
def local_ (f : Frame) (slot : Int) : Value :=
  if slot < 0 then .null else f.slots.getD slot.toNat .null

/-- Slots with one of them stored, grown as far as needed. A negative slot and one beyond what can
be set aside do not exist. -/
def storeSlot? (slots : Array Value) (slot : Int) (v : Value) : Option (Array Value) :=
  if slot < 0 || maxValues ≤ slot then none
  else
    let n := slot.toNat
    let grown := if n < slots.size then slots
      else slots ++ Array.replicate (n + 1 - slots.size) Value.null
    some (grown.setIfInBounds n v)

/-- The activation with one slot stored. -/
def setLocal? (f : Frame) (slot : Int) (v : Value) : Option Frame :=
  (storeSlot? f.slots slot v).map fun slots => { f with slots := slots }

end Frame

/-- An active try region. -/
structure Handler where
  region : TryRegion
  /-- The height of the value stack when the region was entered. -/
  stackHeight : Nat
  /-- The position of the activation that entered it. -/
  frameIndex : Nat
  /-- Whether one of its catch blocks was entered. -/
  fired : Bool
  /-- The serial of the activation that entered it. -/
  owner : Nat
  /-- Which entered region of the run this is, counted from zero. -/
  serial : Nat
deriving DecidableEq, Repr

/-! ## Declarations -/

/-- A foreign key declared by a program: the source column refers to the target column. -/
structure Relation where
  sourceTable : Text
  sourceColumn : Text
  targetTable : Text
  targetColumn : Text
deriving DecidableEq, Repr

/-- The relation as source and target. -/
def Relation.text (r : Relation) : Text :=
  Text.concat [r.sourceTable, ".", r.sourceColumn, " -> ", r.targetTable, ".", r.targetColumn]

/-- A primary key declared by a program. -/
structure PrimaryKey where
  table : Text
  column : Text
deriving DecidableEq, Repr

/-! ## The machine -/

/-- A function of some loaded program. -/
structure MemoKey where
  unit : Nat
  position : Nat
deriving DecidableEq, Repr

/-- A machine, running or at rest. -/
structure Machine where
  stack : Stack Value
  frames : Stack Frame
  handlers : Stack Handler
  /-- The global slots; never-stored ones below a stored one hold null. -/
  globals : Array Value
  /-- Names of global slots, from the program run last. -/
  globalNames : NameMap
  /-- Names of declared global slots, from the program run last. -/
  explicitNames : NameMap
  /-- Relations declared during the last run. -/
  relations : List Relation
  /-- Primary keys declared during the last run. -/
  primaryKeys : List PrimaryKey
  /-- Remembered results by function. -/
  memos : List (MemoKey × Memo)
  host : Host
  /-- How many activations the run has begun. -/
  activations : Nat
  /-- How many try regions the run has entered. -/
  regionsEntered : Nat

namespace Machine

/-- A machine that has run nothing. -/
def new (host : Host) : Machine where
  stack := .empty
  frames := .empty
  handlers := .empty
  globals := #[]
  globalNames := .empty
  explicitNames := .empty
  relations := []
  primaryKeys := []
  memos := []
  host := host
  activations := 0
  regionsEntered := 0

/-- The heap. -/
def heap (m : Machine) : Heap := m.host.heap

/-- The machine with another heap. -/
def withHeap (m : Machine) (heap : Heap) : Machine :=
  { m with host := { m.host with heap := heap } }

/-- The machine with a value on its stack. -/
def push (m : Machine) (v : Value) : Machine := { m with stack := m.stack.push v }

/-- The machine without the latest `count` values of its stack. -/
def drop (m : Machine) (count : Nat) : Machine := { m with stack := m.stack.drop count }

/-- The machine with its innermost activation changed. -/
def modifyFrame (m : Machine) (f : Frame → Frame) : Machine :=
  { m with frames := m.frames.modifyTop f }

/-- The live activations, the innermost first. -/
def trace (m : Machine) : List TraceEntry := m.frames.items.map fun f => ⟨f.name, f.line⟩

/-! ## Globals -/

/-- The machine with a global stored; a table takes the name of the slot it is stored to. -/
def storeGlobal? (m : Machine) (slot : Int) (v : Value) : Option Machine :=
  let named :=
    match v, m.globalNames.get? slot with
    | .table r, some name => m.withHeap (m.heap.nameTable r name)
    | _, _ => m
  (Frame.storeSlot? m.globals slot v).map fun globals => { named with globals := globals }

/-- The value of a global, or null where it was never stored. -/
def global (m : Machine) (slot : Int) : Value :=
  if slot < 0 then .null else m.globals.getD slot.toNat .null

/-! ## Remembered results -/

/-- The memo of a function, if it was ever asked for a result. -/
def memo? (m : Machine) (key : MemoKey) : Option Memo := m.memos.lookup key

/-- The machine with another memo of a function. -/
def setMemo (m : Machine) (key : MemoKey) (memo : Memo) : Machine :=
  { m with memos := (key, memo) :: m.memos.filter (·.1 ≠ key) }

end Machine

end TableMachine
