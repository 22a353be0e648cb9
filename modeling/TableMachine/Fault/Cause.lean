import TableMachine.Fault.ErrorType
import TableMachine.Value.Basic

/-! # Causes of faults

Everything that can go wrong while a program runs, as data. `Cause.errorType` classifies a cause and
`Cause.message` is the only place that words it.
-/

namespace TableMachine

/-- What an index was applied to, where it has to be a number. -/
inductive Indexed where
  | array
  | column
  | tableRow
deriving DecidableEq, Repr

/-- How messages call what was indexed. -/
def Indexed.label : Indexed → Text
  | array => "Array"
  | column => "Column"
  | tableRow => "Table row"

/-- Why a fault was raised. -/
inductive Cause where
  -- Operators
  /-- An arithmetic operator applied to other things than two numbers. -/
  | notNumbers (symbol : Text) (left right : Kind)
  | notAddable (left right : Kind)
  | notDivisible (left right : Kind)
  | notComparable (symbol : Text) (left right : Kind)
  /-- An instruction that is no binary operator, used as one. -/
  | notBinary (name : Text)
  | divisionByZero
  | moduloByZero
  | notNegatable (operand : Kind)
  | notSearchable (operand : Kind)
  -- Element access
  | indexNotNumber (of : Indexed) (index : Kind)
  | indexNaN (of : Indexed)
  | indexNegative (of : Indexed)
  /-- An index above everything a container can hold, with its text. -/
  | indexHuge (of : Indexed) (index : Text)
  | arrayIndexOutside (index length : Nat)
  | columnIndexOutside (index length : Nat)
  | rowIndexOutside (index length : Nat)
  | objectIndexNotText (index : Kind)
  | keyMissing (key : Text)
  | columnMissing (name : Text)
  | tableColumnMissing (name : Text)
  | tableIndexWrong (index : Kind)
  | pathIndexNotText (index : Kind)
  | pathPropertyMissing (name : Text)
  | notIndexable (container : Kind)
  | noLength (container : Kind)
  -- Instructions
  | constantOutside (index : Int)
  | undefinedGlobal (name : Option Text)
  | handlerOutside (index : Int)
  /-- A value thrown by the program, by its text. -/
  | thrown (text : Text)
  | invalidPointer (offset : Int)
  | invalidInstruction (name : Text) (offset : Nat)
  /-- An instruction that needs more values than the stack holds: the program is malformed. -/
  | underflow (name : Text) (needed present : Nat)
  -- Calls
  | functionOutside (index : Int)
  | nativeOutside (index : Int)
  | arityMismatch (name : Text) (expected : Int) (given : Nat)
  | tooDeep (limit : Int) (name : Text)
  | notCallable (callee : Kind)
  -- Natives
  /-- A fault that a native reported. -/
  | reported (errorType : ErrorType) (message : Text)
  /-- A fault that a native reported on behalf of a failure of the host. -/
  | wrapped (errorType : ErrorType) (message : Text)
deriving DecidableEq, Repr

namespace Cause

/-- The type of the fault. -/
def errorType : Cause → ErrorType
  | notNumbers .. | notAddable .. | notDivisible .. | notComparable .. | notNegatable _
  | notSearchable _ | indexNotNumber .. | indexNaN _ | objectIndexNotText _ | tableIndexWrong _
  | pathIndexNotText _ | notIndexable _ | noLength _ | arityMismatch .. | notCallable _ => .type
  | divisionByZero | moduloByZero => .zeroDivision
  | indexHuge .. | arrayIndexOutside .. | columnIndexOutside .. | rowIndexOutside .. => .index
  | keyMissing _ | columnMissing _ | tableColumnMissing _ | pathPropertyMissing _ => .key
  | notBinary _ | indexNegative _ | constantOutside _ | undefinedGlobal _ | handlerOutside _
  | thrown _ | invalidPointer _ | invalidInstruction .. | underflow .. | functionOutside _
  | nativeOutside _ => .runtime
  | tooDeep .. => .recursion
  | reported t _ | wrapped t _ => t

/-- "got A and B". -/
def gotTwo (left right : Kind) : Text := Text.concat [", got ", left.name, " and ", right.name]

/-- The wording of the fault. -/
def message : Cause → Text
  | notNumbers symbol l r =>
    Text.concat ["Operands of ", symbol, " must be numbers", gotTwo l r]
  | notAddable l r => Text.concat ["Operands of + must be numbers or strings", gotTwo l r]
  | notDivisible l r => Text.concat ["Operands of / must be numbers or paths", gotTwo l r]
  | notComparable symbol l r =>
    Text.concat ["Operands of ", symbol, " must be two numbers or two strings", gotTwo l r]
  | notBinary name => Text.concat [name, " is not a binary operator"]
  | divisionByZero => "Division by zero"
  | moduloByZero => "Modulo by zero"
  | notNegatable k => Text.concat ["Operand of unary - must be a number, got ", k.name]
  | notSearchable k => Text.concat ["Right operand of 'in' must be an array, got ", k.name]
  | indexNotNumber of_ k => Text.concat [of_.label, " index must be a number, got ", k.name]
  | indexNaN of_ => Text.concat [of_.label, " index must be a number, got NaN"]
  | indexNegative of_ => Text.concat [of_.label, " index must be non-negative"]
  | indexHuge of_ index => Text.concat [of_.label, " index ", index, " out of bounds"]
  | arrayIndexOutside i n => outside "Array" i n
  | columnIndexOutside i n => outside "Column" i n
  | rowIndexOutside i n => outside "Row" i n
  | objectIndexNotText k => Text.concat ["Object index must be a string, got ", k.name]
  | keyMissing key => Text.concat ["Key '", key, "' not found in object"]
  | columnMissing name => Text.concat ["Column '", name, "' not found"]
  | tableColumnMissing name => Text.concat ["Column '", name, "' not found in table"]
  | tableIndexWrong k =>
    Text.concat ["Table index must be a column name or row number, got ", k.name]
  | pathIndexNotText k => Text.concat ["Path property access requires a string, got ", k.name]
  | pathPropertyMissing name => Text.concat ["Property '", name, "' not found on path"]
  | notIndexable k => Text.concat ["Cannot index ", k.name]
  | noLength k => Text.concat ["Expected array or column, got ", k.name]
  | constantOutside i => Text.concat ["constant index ", Text.ofInt i, " out of bounds"]
  | undefinedGlobal none => "Undefined variable"
  | undefinedGlobal (some name) => Text.concat ["Undefined variable '", name, "'"]
  | handlerOutside i => Text.concat ["exception handler ", Text.ofInt i, " out of bounds"]
  | thrown text => text
  | invalidPointer i => Text.concat ["invalid instruction pointer ", Text.ofInt i]
  | invalidInstruction name offset =>
    Text.concat ["invalid instruction ", name, " at offset ", Text.ofIntHex 4 offset]
  | underflow name needed present =>
    Text.concat ["stack underflow: ", name, " needs ", Text.ofNat needed, " values, stack has ",
      Text.ofNat present]
  | functionOutside i => Text.concat ["function index ", Text.ofInt i, " out of bounds"]
  | nativeOutside i => Text.concat ["native function index ", Text.ofInt i, " out of bounds"]
  | arityMismatch name expected given =>
    Text.concat [name, " expected ", Text.ofInt expected, " arguments but got ", Text.ofNat given]
  | tooDeep limit name =>
    Text.concat ["maximum call depth ", Text.ofInt limit, " exceeded calling ", name]
  | notCallable k => Text.concat ["Can only call functions, got ", k.name]
  | reported _ message => message
  | wrapped _ message => message
where
  /-- The wording for a position outside a container. -/
  outside (what : Text) (index length : Nat) : Text :=
    Text.concat [what, " index ", Text.ofNat index, " out of bounds (length: ", Text.ofNat length,
      ")"]

/-- Whether the cause is a malformed program that ran out of operands. -/
def isUnderflow : Cause → Bool
  | underflow .. => true
  | _ => false

/-- Whether the fault stands for a failure from elsewhere. -/
def hasSource : Cause → Bool
  | underflow .. | wrapped .. => true
  | _ => false

end Cause

end TableMachine
