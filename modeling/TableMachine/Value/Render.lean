import TableMachine.Value.Heap
import TableMachine.Number.Display
import TableMachine.Text.Quoted

/-! # Truth and text of a value

Null, false, zero and everything empty count as false. The text of a value is what printing and
concatenation show; containers are written down to a fixed depth, below which three dots stand, so
cyclic values have a text too.
-/

namespace TableMachine.Value

/-- Whether a condition takes the value for true. Not-a-number counts as true. -/
def truthy (heap : Heap) : Value → Bool
  | .null => false
  | .bool b => b
  | .number x => !x.isZero
  | .string t | .path t => !t.isEmpty
  | .array r => !(heap.array r).isEmpty
  | .table r => !(heap.table r).rows.isEmpty
  | .object r => !(heap.object r).entries.isEmpty
  | .column r name => (heap.table r).hasColumn name && !(heap.table r).rows.isEmpty
  | .function _ | .native _ => true

/-- The number of container levels that are written out. -/
def renderLevels : Nat := 65

/-- The text of a column reference. -/
def columnText (t : Table) (name : Text) : Text :=
  let count : Text :=
    if t.hasColumn name then Text.concat [" (", Text.ofNat t.rowCount, " values)>"]
    else " (not found)>"
  Text.concat ["<column: ", t.displayName, ".", name, count]

/-- The text of a value with the given number of levels left. -/
def renderWithin (heap : Heap) : (levels : Nat) → Value → Text
  | 0, _ => "..."
  | levels + 1, v =>
    match v with
    | .null => "null"
    | .number x => x.display
    | .bool b => Text.ofBool b
    | .string t | .path t => t
    | .function _ => "<function>"
    | .native _ => "<native function>"
    | .array r =>
      Text.concat ["[",
        Text.joinWith ", " ((heap.array r).toList.map (renderWithin heap levels)), "]"]
    | .object r =>
      Text.concat ["\x7b", Text.joinWith ", " ((heap.object r).entries.map fun (key, x) =>
        Text.concat [key.quoted, ": ", renderWithin heap levels x]), "\x7d"]
    | .table r =>
      Text.concat ["<table: ", Text.ofNat (heap.table r).rowCount, " rows, ",
        Text.ofNat (heap.table r).columnCount, " columns>"]
    | .column r name => columnText (heap.table r) name

/-- The text of a value. -/
def render (heap : Heap) (v : Value) : Text := renderWithin heap renderLevels v

end TableMachine.Value
