import TableMachine.Code.Opcode
import TableMachine.Fault.Cause
import TableMachine.Number.Display
import TableMachine.Path
import TableMachine.Value.Equality

/-! # Arithmetic and comparison

The operators that take two values, with the second one from the top of the stack. Addition also
concatenates texts, division also extends paths, and comparison also orders texts bytewise. A
comparison with not-a-number is false, whatever the operator.
-/

namespace TableMachine.Operation

/-- How messages write an operator: its symbol, or its name where it has none. -/
def symbol : Opcode → Text
  | .sub => "-"
  | .mul => "*"
  | .intDiv => "//"
  | .mod => "%"
  | .pow => "**"
  | .greater => ">"
  | .less => "<"
  | .greaterEqual => ">="
  | .lessEqual => "<="
  | op => op.name

/-- The sum of numbers, or the concatenation of texts and numbers. -/
def add : Value → Value → Except Cause Value
  | .number x, .number y => .ok (.number (x.add y))
  | .string s, .string t => .ok (.string (s ++ t))
  | .string s, .number y => .ok (.string (s ++ y.display))
  | .number x, .string t => .ok (.string (x.display ++ t))
  | a, b => .error (.notAddable a.kind b.kind)

/-- The quotient of numbers, or a path extended by a text. -/
def divide : Value → Value → Except Cause Value
  | .number x, .number y =>
    if y.isZero then .error .divisionByZero else .ok (.number (x.divide y))
  | .path s, .string t | .string s, .string t => .ok (.path (Path.extend s t))
  | a, b => .error (.notDivisible a.kind b.kind)

/-- How two numbers or two texts are ordered; `none` when one is not a number. -/
def ordering : Value → Value → Option (Option Ordering)
  | .number x, .number y =>
    some (if x.less y then some .lt else if y.less x then some .gt
      else if x.equals y then some .eq else none)
  | .string s, .string t => some (some (if s < t then .lt else if t < s then .gt else .eq))
  | _, _ => none

/-- The comparisons, by whether they accept an ordering. -/
def accepts : Opcode → Ordering → Bool
  | .greater, o => o == .gt
  | .less, o => o == .lt
  | .greaterEqual, o => o != .lt
  | _, o => o != .gt

/-- A comparison of two numbers or two texts. -/
def compare (op : Opcode) (a b : Value) : Except Cause Value :=
  match ordering a b with
  | some (some o) => .ok (.bool (accepts op o))
  | some none => .ok (.bool false)
  | none => .error (.notComparable (symbol op) a.kind b.kind)

/-- An operator that is defined on two numbers only. -/
def arithmetic (op : Opcode) (x y : Number) : Except Cause Value :=
  match op with
  | .sub => .ok (.number (x.subtract y))
  | .mul => .ok (.number (x.multiply y))
  | .intDiv => if y.isZero then .error .divisionByZero else .ok (.number (x.divide y).floor)
  | .mod => if y.isZero then .error .moduloByZero else .ok (.number (x.remainder y))
  | .pow => .ok (.number (x.power y))
  | op => .error (.notBinary op.name)

/-- The binary operator `op`. An opcode that is none is refused once both operands are numbers. -/
def binary (heap : Heap) (op : Opcode) (a b : Value) : Except Cause Value :=
  match op with
  | .add => add a b
  | .div => divide a b
  | .equal => .ok (.bool (Value.equal heap a b))
  | .notEqual => .ok (.bool (!Value.equal heap a b))
  | .greater | .less | .greaterEqual | .lessEqual => compare op a b
  | op =>
    match a, b with
    | .number x, .number y => arithmetic op x y
    | a, b => .error (.notNumbers (symbol op) a.kind b.kind)

/-- The binary operator of a byte, which need not be an opcode. -/
def binaryOfByte (heap : Heap) (byte : UInt8) (a b : Value) : Except Cause Value :=
  match Opcode.ofByte? byte with
  | some op => binary heap op a b
  | none =>
    match a, b with
    | .number _, .number _ => .error (.notBinary (Opcode.nameOfByte byte))
    | a, b => .error (.notNumbers (Opcode.nameOfByte byte) a.kind b.kind)

/-- The number of the other sign. -/
def negate : Value → Except Cause Value
  | .number x => .ok (.number x.negate)
  | v => .error (.notNegatable v.kind)

/-- Whether an array holds a value equal to `needle`. -/
def member (heap : Heap) (needle haystack : Value) : Except Cause Value :=
  match haystack with
  | .array r => .ok (.bool ((heap.array r).toList.any fun v => Value.equal heap v needle))
  | v => .error (.notSearchable v.kind)

end TableMachine.Operation
