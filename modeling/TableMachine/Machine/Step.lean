import TableMachine.Machine.Call
import TableMachine.Machine.Dispatch
import TableMachine.Operation.Arithmetic
import TableMachine.Operation.Element
import TableMachine.Value.Clone
import TableMachine.Value.Render

/-! # One step of a machine

A step decodes the instruction at the innermost activation's pointer, checks that the stack holds
its operands, executes it, and dispatches the fault it may raise. Three sorts of malformed code end
the run with a fault that no handler is offered: a pointer before the code, bytes that are no
complete instruction, and too few operands.
-/

namespace TableMachine

namespace Machine

/-! ## Operands -/

/-- Takes one value from the stack. -/
def withOne (m : Machine) (f : Value → Machine → Effect) : Effect :=
  match m.stack.items with
  | v :: _ => f v (m.drop 1)
  | [] => .broken

/-- Takes two values from the stack, the later one second. -/
def withTwo (m : Machine) (f : Value → Value → Machine → Effect) : Effect :=
  match m.stack.items with
  | b :: a :: _ => f a b (m.drop 2)
  | _ => .broken

/-- Puts the value of an operation on the stack, or raises its cause. -/
def yield_ (m : Machine) : Except Cause Value → Effect
  | .ok v => .done (m.push v)
  | .error cause => .raised cause m

/-- As `yield_`, with the heap that the operation left. -/
def yieldOn (m : Machine) : Except Cause (Value × Heap) → Effect
  | .ok (v, heap) => .done ((m.withHeap heap).push v)
  | .error cause => .raised cause m

/-- Moves the innermost activation's pointer by a distance. -/
def jumpBy (m : Machine) (distance : Int) : Machine :=
  m.modifyFrame fun f => { f with ip := f.ip + distance }

/-- Moves the innermost activation's pointer to an offset. -/
def jumpTo (m : Machine) (offset : Int) : Machine := m.modifyFrame fun f => { f with ip := offset }

/-! ## Handlers -/

/-- Enters a try region. -/
def beginTry (m : Machine) (frame : Frame) (index : Int) : Effect :=
  match frame.chunk.regions.entries[index.toNat]? with
  | none => .raised (.handlerOutside index) m
  | some region =>
    .done { m with
      handlers := m.handlers.push {
        region := region
        stackHeight := m.stack.height
        frameIndex := m.topIndex
        fired := false
        owner := frame.serial
        serial := m.regionsEntered }
      regionsEntered := m.regionsEntered + 1 }

/-- Removes the latest handler, and goes on at its else block if it has one and caught nothing. -/
def endTry (m : Machine) : Machine :=
  match m.handlers.top? with
  | none => m
  | some h =>
    let m := { m with handlers := m.handlers.drop 1 }
    if !h.fired && h.region.hasElse then m.jumpTo h.region.elseEntry else m

/-! ## Instructions -/

/-- Executes an instruction of the innermost activation, whose pointer is already past it. -/
def execute (s : Setup) (m : Machine) (frame : Frame) (op : Opcode) (operand : Int) : Effect :=
  match op with
  | .nop | .catch_ | .endCatch => .done m
  | .pop => m.withOne fun _ m => .done m
  | .constant =>
    match frame.chunk.constants.entries[operand.toNat]? with
    | some k => .done (m.push k.value)
    | none => .raised (.constantOutside operand) m
  | .loadLocal => .done (m.push (frame.local_ operand))
  | .storeLocal => m.withOne fun v m =>
    match frame.setLocal? operand v with
    | some frame => .done (m.modifyFrame fun f => { f with slots := frame.slots })
    | none => .broken
  | .loadGlobal =>
    match m.globals[operand.toNat]? with
    | some v => .done (m.push v)
    | none => .raised (.undefinedGlobal (m.globalNames.get? operand)) m
  | .storeGlobal => m.withOne fun v m =>
    match m.storeGlobal? operand v with
    | some m => .done m
    | none => .broken
  | .add | .sub | .mul | .div | .intDiv | .mod | .pow | .equal | .notEqual | .greater | .less
  | .greaterEqual | .lessEqual =>
    m.withTwo fun a b m => m.yield_ (Operation.binary m.heap op a b)
  | .negate => m.withOne fun v m => m.yield_ (Operation.negate v)
  | .in_ => m.withTwo fun needle haystack m =>
    m.yield_ (Operation.member m.heap needle haystack)
  | .not => m.withOne fun v m => .done (m.push (.bool (!v.truthy m.heap)))
  | .and => m.withTwo fun a b m => .done (m.push (if a.truthy m.heap then b else a))
  | .or => m.withTwo fun a b m => .done (m.push (if a.truthy m.heap then a else b))
  | .jump8 | .jump16 | .jump32 => .done (m.jumpBy operand)
  | .jumpIfFalse8 | .jumpIfFalse16 | .jumpIfFalse32 => m.withOne fun v m =>
    .done (if v.truthy m.heap then m else m.jumpBy operand)
  | .call => m.call s operand.toNat
  | .return_ =>
    if frame.stackStart < m.stack.height then m.withOne fun v m => m.returnFrom s v
    else m.returnFrom s .null
  | .makeArray =>
    let elements := m.stack.latest operand.toNat
    let m := m.drop operand.toNat
    let (r, heap) := m.heap.newArray elements.toArray
    .done ((m.withHeap heap).push (.array r))
  | .arrayLength => m.withOne fun v m => m.yield_ (Operation.arrayLength m.heap v)
  | .arrayElement => m.withTwo fun container index m =>
    m.yieldOn (Operation.element m.host.files m.heap container index)
  | .clone => m.withOne fun v m =>
    let (copy, heap) := m.heap.deepClone v
    .done ((m.withHeap heap).push copy)
  | .beginTry => m.beginTry frame operand
  | .endTry => .done m.endTry
  | .throw => m.withOne fun v m => .raised (.thrown (v.render m.heap)) m
  | .popHandler => .done { m with handlers := m.handlers.drop 1 }

/-- The number of values an instruction needs on the stack. -/
def needed (op : Opcode) (operand : Int) : Nat :=
  match op with
  | .call => operand.toNat + 1
  | .makeArray => operand.toNat
  | .return_ => 0
  | op => op.pops.getD 0

/-! ## Steps -/

/-- What one step led to. -/
inductive Outcome where
  /-- The run goes on. -/
  | next (m : Machine)
  /-- The run ended with a value. -/
  | finished (result : Value) (m : Machine)
  /-- The run ended with a fault. -/
  | failed (fault : Fault) (m : Machine)
  /-- The program lacks a part that was needed. -/
  | broken

/-- A fault at a line, with the activations live now. -/
def faultAt (m : Machine) (cause : Cause) (line : Int) : Fault := ⟨cause, line, m.trace⟩

/-- Offers the fault of the instruction at `site` to the handlers. -/
def raise (m : Machine) (frame : Frame) (cause : Cause) (site : Int) : Outcome :=
  match m.dispatch cause site with
  | .caught m => .next m
  | .uncaught => .failed (m.faultAt cause (frame.chunk.lineAt site)) m
  | .broken => .broken

/-- The end of the innermost activation's code: the main chunk ends the run with the top of the
stack, if there is one, and a function returns null. -/
def endOfCode (s : Setup) (m : Machine) : Outcome :=
  if m.frames.height = 1 then
    let result := m.stack.top?.getD .null
    .finished result { m.drop 1 with frames := .empty }
  else match m.returnFrom s .null with
    | .done m => .next m
    | .finished v m => .finished v m
    | .raised cause m => .failed (m.faultAt cause 0) m
    | .broken => .broken

/-- Executes the instruction at `start` and settles its effect. -/
def perform (s : Setup) (m : Machine) (frame : Frame) (start : Nat) (i : Chunk.Instruction) :
    Outcome :=
  let m := m.modifyFrame fun f => { f with started := start, ip := start + i.op.length }
  let need := needed i.op i.operand
  if m.stack.height < need then
    .failed (m.faultAt (.underflow i.op.name need m.stack.height) (frame.chunk.lineAt start)) m
  else match m.execute s frame i.op i.operand with
    | .done m => .next m
    | .raised cause m => m.raise frame cause start
    | .finished v m => .finished v m
    | .broken => .broken

/-- One step of a running machine. -/
def step (s : Setup) (m : Machine) : Outcome :=
  match m.frames.top? with
  | none => .broken
  | some frame =>
    if frame.chunk.codeSize ≤ frame.ip then m.endOfCode s
    else if frame.ip < 0 then
      .failed (m.faultAt (.invalidPointer frame.ip) (frame.chunk.lineAt frame.started)) m
    else
      let start := frame.ip.toNat
      match frame.chunk.instruction? start with
      | some i => m.perform s frame start i
      | none =>
        let byte := frame.chunk.code.entries.getD start 0
        .failed (m.faultAt (.invalidInstruction (Opcode.nameOfByte byte) start)
          (frame.chunk.lineAt start)) m

end Machine

end TableMachine
