import TableMachine.Dictionary
import TableMachine.Number.Basic
import TableMachine.Text.Basic

/-! # Values

A value is a scalar, which is copied, or a reference to an array, an object or a table in the heap,
which is shared. A column is named together with its table and is no copy of it. Each kind of
container has references of its own type, so that a reference never leads to the wrong kind.
-/

namespace TableMachine

/-- A reference to an array of the heap. -/
structure ArrayRef where
  id : Nat
deriving DecidableEq, Repr

/-- A reference to an object of the heap. -/
structure ObjectRef where
  id : Nat
deriving DecidableEq, Repr

/-- A reference to a table of the heap. It is the table's identity. -/
structure TableRef where
  id : Nat
deriving DecidableEq, Repr

/-- A datum of a running program. -/
inductive Value where
  /-- The absence of a value. -/
  | null
  | number (value : Number)
  | bool (value : Bool)
  | string (text : Text)
  /-- A path in the file system. -/
  | path (text : Text)
  /-- A function, by its position in the program. -/
  | function (index : Int)
  /-- A native function, by its position in the native table. -/
  | native (index : Int)
  | array (ref : ArrayRef)
  | object (ref : ObjectRef)
  | table (ref : TableRef)
  /-- A column of a table, by name. -/
  | column (table : TableRef) (name : Text)
deriving DecidableEq, Repr, Inhabited

/-- The kinds of values, in the order of their numbers. -/
inductive Kind where
  | null | number | bool | string | array | table | object | function | native | path | column
deriving DecidableEq, Repr

namespace Kind

/-- All kinds in the order of their numbers. -/
def all : List Kind :=
  [null, number, bool, string, array, table, object, function, native, path, column]

/-- The name that messages give the kind. -/
def name : Kind → Text
  | null => "null"
  | number => "number"
  | bool => "bool"
  | string => "string"
  | array => "array"
  | table => "table"
  | object => "object"
  | function => "function"
  | native => "native function"
  | path => "path"
  | column => "column"

/-- The name of the kind with the given number, also of numbers that belong to none. -/
def nameOfNumber (n : Nat) : Text :=
  match all[n]? with
  | some kind => kind.name
  | none => Text.concat ["Kind(", Text.ofNat n, ")"]

end Kind

namespace Value

/-- The kind of a value. -/
def kind : Value → Kind
  | null => .null
  | number _ => .number
  | bool _ => .bool
  | string _ => .string
  | path _ => .path
  | function _ => .function
  | native _ => .native
  | array _ => .array
  | object _ => .object
  | table _ => .table
  | column _ _ => .column

/-- A natural number as a value. -/
def ofNat (n : Nat) : Value := number (Number.ofNat n)

/-- Whether a call can have the value as its target. -/
def isCallable : Value → Bool
  | function _ | native _ => true
  | _ => false

/-- Whether the value may be part of a memo key. -/
def isHashable : Value → Bool
  | null | number _ | bool _ | string _ => true
  | _ => false

/-- The number, or zero where the value is none. -/
def numberOrZero : Value → Number
  | number x => x
  | _ => .zero

/-- Whether the value is the truth value true. -/
def isTrue : Value → Bool
  | bool b => b
  | _ => false

/-- The text of a string or a path; other values have the empty one. -/
def textOrEmpty : Value → Text
  | string t | path t => t
  | _ => []

/-- The position that a function value names. -/
def index? : Value → Option Int
  | function i | native i => some i
  | _ => none

/-- The table a value refers to; a column refers to none. -/
def table? : Value → Option TableRef
  | table r => some r
  | _ => none

/-- The array a value refers to. -/
def array? : Value → Option ArrayRef
  | array r => some r
  | _ => none

/-- The object a value refers to. -/
def object? : Value → Option ObjectRef
  | object r => some r
  | _ => none

/-- The table and the name of a column. -/
def column? : Value → Option (TableRef × Text)
  | column t name => some (t, name)
  | _ => none

end Value

/-- The fields of an object by their names. -/
abbrev Object := Dictionary Text Value

end TableMachine
