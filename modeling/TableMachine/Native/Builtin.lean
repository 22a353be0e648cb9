import TableMachine.Machine.Host
import TableMachine.Value.Render

/-! # The built-in natives

The natives every command-line run has, in the order in which compiled programs number them:
printing, lengths, tables and their rows, declarations, arrays and files.
-/

namespace TableMachine.Native

/-- A report of a value. -/
def answer (host : Host) (v : Value) : Report := { host := host, value := v }

/-- A report of a fault. -/
def refuse (host : Host) (t : ErrorType) (message : Text) : Report :=
  (answer host .null).raise (.reported t message)

/-- A report of a failure of the host. -/
def failure (host : Host) (t : ErrorType) (message : Text) : Report :=
  (answer host .null).raise (.wrapped t message)

/-- The wording for a wrong number of arguments. -/
def arityMessage (name : Text) (expected given : Nat) : Text :=
  Text.concat [name, "() takes ", Text.ofNat expected, " arguments (", Text.ofNat given, " given)"]

/-- A native of one argument. -/
def one (name : Text) (run : Host → Value → Report) : Native where
  name := name
  run host arguments :=
    match arguments with
    | [v] => run host v
    | _ => refuse host .type (arityMessage name 1 arguments.length)

/-- A native of two arguments. -/
def two (name : Text) (run : Host → Value → Value → Report) : Native where
  name := name
  run host arguments :=
    match arguments with
    | [v, w] => run host v w
    | _ => refuse host .type (arityMessage name 2 arguments.length)

/-- The host after a line was printed, unless its output is closed. -/
def printLine? (host : Host) (line : Text) : Option Host :=
  if host.output.closed then none
  else some { host with output := { host.output with
    written := host.output.written ++ (line ++ [0x0A]).toArray } }

/-- Prints the texts of its arguments on one line. -/
def print : Native where
  name := "print"
  run host arguments :=
    let line := Text.joinWith " " (arguments.map (Value.render host.heap))
    match printLine? host line with
    | some host => answer host .null
    | none => failure host .io "stdout closed"

/-- The number of elements, rows, code points or fields. -/
def len : Native := one "len" fun host v =>
  match v with
  | .array r => answer host (.ofNat (host.heap.array r).size)
  | .table r => answer host (.ofNat (host.heap.table r).rowCount)
  | .string t => answer host (.ofNat t.runeCount)
  | .object r => answer host (.ofNat (host.heap.object r).size)
  | v => refuse host .type (Text.concat ["len() of ", v.kind.name])

/-- The texts of a list of values, or the kind of the first value that is none. -/
def headers : List Value → Except Kind (List Text)
  | [] => .ok []
  | .string t :: rest => (headers rest).map (t :: ·)
  | v :: _ => .error v.kind

/-- A new table with the given column names. -/
def table : Native := one "table" fun host v =>
  match v with
  | .array r =>
    match headers (host.heap.array r).toList with
    | .ok names =>
      let (t, heap) := host.heap.newTable (.ofHeaders names)
      answer { host with heap := heap } (.table t)
    | .error kind =>
      refuse host .type (Text.concat ["column name must be a string, got ", kind.name])
  | v =>
    refuse host .type
      (Text.concat ["table() expects an array of column names, got ", v.kind.name])

/-- Adds a row to a table. -/
def addRow : Native := two "add_row" fun host v w =>
  match v, w with
  | .table t, .array r =>
    let row := (host.heap.array r).toList
    match (host.heap.table t).addRow? row with
    | some table => answer { host with heap := host.heap.setTable t table } v
    | none => failure host .value ((host.heap.table t).rowRefused row)
  | _, _ => refuse host .type "add_row() expects a table and an array"

/-- Declares that the second column refers to the first. -/
def relate : Native := two "relate" fun host key foreign =>
  match (answer host .null).relate? key foreign with
  | some report => report
  | none => refuse host .type "relate() expects two column references"

/-- Declares a primary key. -/
def primaryKey : Native := one "primary_key" fun host column =>
  match (answer host .null).primaryKey? column with
  | some report => report
  | none => refuse host .type "primary_key() expects a column reference"

/-- Adds a value at the end of an array. -/
def push : Native := two "push" fun host v w =>
  match v with
  | .array r => answer { host with heap := host.heap.append r [w] } v
  | v => refuse host .type (Text.concat ["push() expects an array, got ", v.kind.name])

/-- The bytes of a file. -/
def readFile : Native := one "read_file" fun host v =>
  match v with
  | .path p | .string p =>
    match host.files.read p with
    | .ok content => answer host (.string content)
    | .error failed => failure host .io failed.message
  | v => refuse host .type (Text.concat ["read_file() expects a path, got ", v.kind.name])

/-- The built-in natives by position. -/
def builtins : List Native :=
  [print, len, table, addRow, relate, primaryKey, push, readFile]

end TableMachine.Native
