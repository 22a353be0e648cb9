import TableMachine.Value.Basic

/-! # Tables

A table has headers and rows. A row usually has one cell per header, and `addRow` insists on it;
rows of another length can still be present and read as if filled up with null.

Columns are found through an index made from the headers at some earlier time. It is renewed only
when its number of distinct names differs from the number of headers, so after a header was
replaced in place a lookup may still answer from the old headers.
-/

namespace TableMachine

/-- A grid of values with named columns. -/
structure Table where
  /-- The name of the variable that holds the table; empty when it has none. -/
  name : Text
  /-- The column names in order; they may repeat. -/
  headers : List Text
  /-- The rows in order. -/
  rows : List (List Value)
  /-- The headers the column index was last made from. -/
  indexed : List Text
deriving DecidableEq, Repr, Inhabited

namespace Table

/-- The table without rows that has the given headers. -/
def ofHeaders (headers : List Text) : Table := ⟨[], headers, [], headers⟩

/-- The number of rows. -/
def rowCount (t : Table) : Nat := t.rows.length

/-- The number of columns. -/
def columnCount (t : Table) : Nat := t.headers.length

/-- The name to show: unnamed tables are called `table`. -/
def displayName (t : Table) : Text := if t.name.isEmpty then "table" else t.name

/-! ## Columns -/

/-- The number of different names in a list. -/
def distinctCount : List Text → Nat
  | [] => 0
  | name :: rest => (if rest.contains name then 0 else 1) + distinctCount rest

/-- Whether the index is taken to be out of date. -/
def isStale (t : Table) : Bool := distinctCount t.indexed != t.headers.length

/-- The table with its index renewed where that is due. -/
def refreshed (t : Table) : Table := if t.isStale then { t with indexed := t.headers } else t

/-- The position of the named column according to the index. -/
def columnIndex? (t : Table) (name : Text) : Option Nat := t.refreshed.indexed.idxOf? name

/-- The position of the named column and the table after it was looked up. -/
def lookup (t : Table) (name : Text) : Option Nat × Table := (t.columnIndex? name, t.refreshed)

/-- Whether the table has the named column. -/
def hasColumn (t : Table) (name : Text) : Bool := (t.columnIndex? name).isSome

/-- The cells of the named column; a row that is too short contributes null. -/
def column? (t : Table) (name : Text) : Option (List Value) :=
  (t.columnIndex? name).map fun i => t.rows.map fun row => row.getD i .null

/-! ## Rows -/

/-- The table with a row added, if the row has one cell per header. -/
def addRow? (t : Table) (row : List Value) : Option Table :=
  if row.length = t.headers.length then some { t with rows := t.rows ++ [row] } else none

/-- Why a row was refused. -/
def rowRefused (t : Table) (row : List Value) : Text :=
  Text.concat ["table row has ", Text.ofNat row.length, " values, expected ",
    Text.ofNat t.headers.length]

/-- A row as an object: the cells under their headers, a later header of one name winning, cells
without a header left out. -/
def rowObject (headers : List Text) (row : List Value) : Object :=
  .ofEntries (headers.zip row)

/-- The row at a position as an object. -/
def row? (t : Table) (index : Nat) : Option Object :=
  t.rows[index]?.map (rowObject t.headers)

/-! ## Changes that leave the index alone -/

/-- The table with a further header. -/
def addHeader (t : Table) (header : Text) : Table := { t with headers := t.headers ++ [header] }

/-- The table with one header replaced. -/
def setHeader (t : Table) (position : Nat) (header : Text) : Table :=
  { t with headers := t.headers.set position header }

/-- The table with a row of any length added. -/
def addAnyRow (t : Table) (row : List Value) : Table := { t with rows := t.rows ++ [row] }

end Table

end TableMachine
