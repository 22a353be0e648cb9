import TableMachine.Text.Basic

/-! # Error types

Faults are classified by types that form a tree with `error` at its root. A catch clause for a type
also catches everything below it.
-/

namespace TableMachine

/-- The type of a fault, in the order of the types' numbers. -/
inductive ErrorType where
  /-- The root of all types. -/
  | error
  | runtime
  | type
  | value
  | zeroDivision
  | lookup
  | index
  | key
  /-- A failure of the host, such as a file that cannot be read. -/
  | io
  | recursion
deriving DecidableEq, Repr

namespace ErrorType

/-- All types in the order of their numbers. -/
def all : List ErrorType :=
  [error, runtime, type, value, zeroDivision, lookup, index, key, io, recursion]

/-- The name a catch clause uses. -/
def name : ErrorType → Text
  | error => "Error"
  | runtime => "RuntimeError"
  | type => "TypeError"
  | value => "ValueError"
  | zeroDivision => "ZeroDivisionError"
  | lookup => "LookupError"
  | index => "IndexError"
  | key => "KeyError"
  | io => "IOError"
  | recursion => "RecursionError"

/-- The type that this one specializes. -/
def parent? : ErrorType → Option ErrorType
  | error => none
  | runtime | type | value | lookup | io | recursion => some error
  | zeroDivision => some value
  | index | key => some lookup

/-- The type and everything it specializes, from itself to the root. -/
def ancestry : ErrorType → List ErrorType
  | error => [error]
  | runtime => [runtime, error]
  | type => [type, error]
  | value => [value, error]
  | lookup => [lookup, error]
  | io => [io, error]
  | recursion => [recursion, error]
  | zeroDivision => [zeroDivision, value, error]
  | index => [index, lookup, error]
  | key => [key, lookup, error]

/-- Whether the type is `target` or below it. -/
def isA (t target : ErrorType) : Bool := t.ancestry.contains target

/-- The type with the given name. -/
def ofName? (name : Text) : Option ErrorType := all.find? fun t => t.name == name

/-- The name of the type with the given number, also of numbers that belong to none. -/
def nameOfNumber (n : Nat) : Text :=
  match all[n]? with
  | some t => t.name
  | none => Text.concat ["ErrorType(", Text.ofNat n, ")"]

end ErrorType

end TableMachine
