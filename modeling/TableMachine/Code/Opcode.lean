import TableMachine.Text.Basic

/-! # Instructions

An instruction is one byte, its opcode, followed by an operand of a width that the opcode fixes.
Jump operands are signed, all others unsigned. `Opcode.pops` and `Opcode.pushes` state the effect on
the value stack where it does not depend on the operand.
-/

namespace TableMachine

/-- The known opcodes, in the order of their bytes. -/
inductive Opcode where
  -- Stack and constants
  | nop | pop | constant
  -- Variables
  | loadLocal | storeLocal | loadGlobal | storeGlobal
  -- Arithmetic
  | add | sub | mul | div | intDiv | mod | pow | negate
  -- Comparison
  | equal | notEqual | greater | less | greaterEqual | lessEqual | in_
  -- Logic
  | not | and | or
  -- Jumps
  | jump8 | jump16 | jump32 | jumpIfFalse8 | jumpIfFalse16 | jumpIfFalse32
  -- Calls
  | call | return_
  -- Collections
  | makeArray | arrayLength | arrayElement | clone
  -- Handlers
  | beginTry | endTry | catch_ | endCatch | throw | popHandler
deriving DecidableEq, Repr

namespace Opcode

/-- All opcodes in the order of their bytes. -/
def all : List Opcode :=
  [nop, pop, constant, loadLocal, storeLocal, loadGlobal, storeGlobal, add, sub, mul, div, intDiv,
    mod, pow, negate, equal, notEqual, greater, less, greaterEqual, lessEqual, in_, not, and, or,
    jump8, jump16, jump32, jumpIfFalse8, jumpIfFalse16, jumpIfFalse32, call, return_, makeArray,
    arrayLength, arrayElement, clone, beginTry, endTry, catch_, endCatch, throw, popHandler]

/-- The byte of an opcode. -/
def toByte : Opcode → UInt8
  | nop => 0x00
  | pop => 0x01
  | constant => 0x02
  | loadLocal => 0x10
  | storeLocal => 0x11
  | loadGlobal => 0x12
  | storeGlobal => 0x13
  | add => 0x20
  | sub => 0x21
  | mul => 0x22
  | div => 0x23
  | intDiv => 0x24
  | mod => 0x25
  | pow => 0x26
  | negate => 0x27
  | equal => 0x30
  | notEqual => 0x31
  | greater => 0x32
  | less => 0x33
  | greaterEqual => 0x34
  | lessEqual => 0x35
  | in_ => 0x36
  | not => 0x38
  | and => 0x39
  | or => 0x3A
  | jump8 => 0x40
  | jump16 => 0x41
  | jump32 => 0x42
  | jumpIfFalse8 => 0x43
  | jumpIfFalse16 => 0x44
  | jumpIfFalse32 => 0x45
  | call => 0x50
  | return_ => 0x51
  | makeArray => 0x60
  | arrayLength => 0x61
  | arrayElement => 0x62
  | clone => 0x63
  | beginTry => 0x70
  | endTry => 0x71
  | catch_ => 0x72
  | endCatch => 0x73
  | throw => 0x74
  | popHandler => 0x75

/-- The opcode of a byte. -/
def ofByte? (byte : UInt8) : Option Opcode :=
  match byte with
  | 0x00 => some nop
  | 0x01 => some pop
  | 0x02 => some constant
  | 0x10 => some loadLocal
  | 0x11 => some storeLocal
  | 0x12 => some loadGlobal
  | 0x13 => some storeGlobal
  | 0x20 => some add
  | 0x21 => some sub
  | 0x22 => some mul
  | 0x23 => some div
  | 0x24 => some intDiv
  | 0x25 => some mod
  | 0x26 => some pow
  | 0x27 => some negate
  | 0x30 => some equal
  | 0x31 => some notEqual
  | 0x32 => some greater
  | 0x33 => some less
  | 0x34 => some greaterEqual
  | 0x35 => some lessEqual
  | 0x36 => some in_
  | 0x38 => some not
  | 0x39 => some and
  | 0x3A => some or
  | 0x40 => some jump8
  | 0x41 => some jump16
  | 0x42 => some jump32
  | 0x43 => some jumpIfFalse8
  | 0x44 => some jumpIfFalse16
  | 0x45 => some jumpIfFalse32
  | 0x50 => some call
  | 0x51 => some return_
  | 0x60 => some makeArray
  | 0x61 => some arrayLength
  | 0x62 => some arrayElement
  | 0x63 => some clone
  | 0x70 => some beginTry
  | 0x71 => some endTry
  | 0x72 => some catch_
  | 0x73 => some endCatch
  | 0x74 => some throw
  | 0x75 => some popHandler
  | _ => none

/-- The name in listings and messages. -/
def name : Opcode → Text
  | nop => "NOP"
  | pop => "POP"
  | constant => "CONSTANT"
  | loadLocal => "LOAD_LOCAL"
  | storeLocal => "STORE_LOCAL"
  | loadGlobal => "LOAD_GLOBAL"
  | storeGlobal => "STORE_GLOBAL"
  | add => "ADD"
  | sub => "SUB"
  | mul => "MUL"
  | div => "DIV"
  | intDiv => "INT_DIV"
  | mod => "MOD"
  | pow => "POW"
  | negate => "NEGATE"
  | equal => "EQUAL"
  | notEqual => "NOT_EQUAL"
  | greater => "GREATER"
  | less => "LESS"
  | greaterEqual => "GREATER_EQUAL"
  | lessEqual => "LESS_EQUAL"
  | in_ => "IN"
  | not => "NOT"
  | and => "AND"
  | or => "OR"
  | jump8 => "JUMP8"
  | jump16 => "JUMP16"
  | jump32 => "JUMP32"
  | jumpIfFalse8 => "JUMP_IF_FALSE8"
  | jumpIfFalse16 => "JUMP_IF_FALSE16"
  | jumpIfFalse32 => "JUMP_IF_FALSE32"
  | call => "CALL"
  | return_ => "RETURN"
  | makeArray => "MAKE_ARRAY"
  | arrayLength => "GET_ARRAY_LENGTH"
  | arrayElement => "GET_ARRAY_ELEMENT"
  | clone => "CLONE"
  | beginTry => "BEGIN_TRY"
  | endTry => "END_TRY"
  | catch_ => "CATCH"
  | endCatch => "END_CATCH"
  | throw => "THROW"
  | popHandler => "POP_EXCEPTION_HANDLER"

/-- The opcode with the given name. -/
def ofName? (name : Text) : Option Opcode := all.find? fun op => op.name == name

/-- The name of any byte; one that is no opcode is shown in hexadecimal. -/
def nameOfByte (byte : UInt8) : Text :=
  match ofByte? byte with
  | some op => op.name
  | none => Text.concat ["UNKNOWN(0x", Text.ofIntHex 2 byte.toNat, ")"]

/-- The number of operand bytes. -/
def width : Opcode → Nat
  | jump8 | jumpIfFalse8 | call => 1
  | constant | loadLocal | storeLocal | loadGlobal | storeGlobal | jump16 | jumpIfFalse16
  | makeArray | beginTry | catch_ => 2
  | jump32 | jumpIfFalse32 => 4
  | _ => 0

/-- The length of the instruction with its operand. -/
def length (op : Opcode) : Nat := 1 + op.width

/-- Whether the opcode is a relative jump. -/
def isJump : Opcode → Bool
  | jump8 | jump16 | jump32 | jumpIfFalse8 | jumpIfFalse16 | jumpIfFalse32 => true
  | _ => false

/-- Whether the opcode is a jump that first takes a condition from the stack. -/
def isConditionalJump : Opcode → Bool
  | jumpIfFalse8 | jumpIfFalse16 | jumpIfFalse32 => true
  | _ => false

/-- Whether the operand is read as a signed number. -/
def isSigned (op : Opcode) : Bool := op.isJump

/-- The number of values taken from the stack; none where it depends on the operand. -/
def pops : Opcode → Option Nat
  | call | makeArray => none
  | pop | storeLocal | storeGlobal | negate | not | jumpIfFalse8 | jumpIfFalse16 | jumpIfFalse32
  | return_ | arrayLength | clone | throw => some 1
  | add | sub | mul | div | intDiv | mod | pow | equal | notEqual | greater | less | greaterEqual
  | lessEqual | in_ | and | or | arrayElement => some 2
  | nop | constant | loadLocal | loadGlobal | jump8 | jump16 | jump32 | beginTry | endTry | catch_
  | endCatch | popHandler => some 0

/-- The number of values put on the stack. -/
def pushes : Opcode → Nat
  | constant | loadLocal | loadGlobal | add | sub | mul | div | intDiv | mod | pow | negate | equal
  | notEqual | greater | less | greaterEqual | lessEqual | in_ | not | and | or | call | makeArray
  | arrayLength | arrayElement | clone => 1
  | _ => 0

/-! ## Jumps by width -/

/-- The narrowest operand, in bytes, that holds a jump distance. -/
def jumpWidth (distance : Int) : Nat :=
  if -128 ≤ distance ∧ distance ≤ 127 then 1
  else if -32768 ≤ distance ∧ distance ≤ 32767 then 2
  else 4

/-- The jump of the given sort whose operand has the given width; the widest for other widths. -/
def jumpOfWidth (conditional : Bool) (width : Int) : Opcode :=
  if width = 1 then (if conditional then jumpIfFalse8 else jump8)
  else if width = 2 then (if conditional then jumpIfFalse16 else jump16)
  else (if conditional then jumpIfFalse32 else jump32)

end Opcode

end TableMachine
