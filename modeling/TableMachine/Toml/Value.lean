import TableMachine.Number.Basic
import TableMachine.Text.Basic

/-! # The values of a document

A document is made of tables, which are numbered in the order of their creation. Table 0 is the
document itself. A value that is a table gives its number, because while a document is read one
table can belong to two others.
-/

namespace TableMachine.Toml

/-- A value that holds no others. -/
inductive Literal where
  | text (value : Text)
  | integer (value : Int)
  | float (value : Number)
  | bool (value : Bool)
  /-- A date, a time of day or both, as it is written. -/
  | moment (written : Text)
deriving DecidableEq, Repr

/-- A value of a document. -/
inductive Value where
  | literal (value : Literal)
  | array (items : List Value)
  /-- A table, by its number. -/
  | table (number : Nat)
  /-- The tables of a repeated header, by their numbers: those before the last, and the last. -/
  | tables (before : List Nat) (last : Nat)
deriving Repr, Inhabited

/-- Whether the value is an array. -/
def Value.isArray : Value → Bool
  | array _ => true
  | _ => false

/-- Keys and their values in the order of their first mention. -/
abbrev Entries := List (Text × Value)

namespace Entries

/-- The value of a key. -/
def get? (entries : Entries) (key : Text) : Option Value := entries.lookup key

/-- The entries with a key set; a new key comes last. -/
def put (entries : Entries) (key : Text) (v : Value) : Entries :=
  match entries with
  | [] => [(key, v)]
  | (k, w) :: rest => if k = key then (key, v) :: rest else (k, w) :: put rest key v

end Entries

/-- The tables of a document by number. -/
structure Document where
  tables : Array Entries
deriving Repr, Inhabited

namespace Document

/-- The document without entries. -/
def empty : Document := ⟨#[[]]⟩

/-- The entries of a table. -/
def entries (doc : Document) (table : Nat) : Entries := doc.tables.getD table []

/-- The entries of the document itself. -/
def root (doc : Document) : Entries := doc.entries 0

/-- The value of a key in a table. -/
def get? (doc : Document) (table : Nat) (key : Text) : Option Value := (doc.entries table).get? key

/-- The document with a key of a table set. -/
def put (doc : Document) (table : Nat) (key : Text) (v : Value) : Document :=
  ⟨doc.tables.modify table fun entries => entries.put key v⟩

/-- The number of the next table. -/
def size (doc : Document) : Nat := doc.tables.size

/-- The document with one more table, which is empty and has the number `size`. -/
def addTable (doc : Document) : Document := ⟨doc.tables.push []⟩

/-- The table that a path leads to from the given one; a repeated header stands for its last
table. -/
def tableFrom? (doc : Document) : (table : Nat) → List Text → Option Nat
  | table, [] => some table
  | table, key :: path =>
    match doc.get? table key with
    | some (.table inner) => tableFrom? doc inner path
    | some (.tables _ last) => tableFrom? doc last path
    | _ => none

/-- The table at a path. -/
def tableAt? (doc : Document) (path : List Text) : Option Nat := doc.tableFrom? 0 path

end Document

end TableMachine.Toml
