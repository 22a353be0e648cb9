import TableMachine.Machine.State
import TableMachine.Value.Render

/-! # Snapshots

What a finished run has to show: its named globals in the order of their slots, and the relations
and primary keys it declared.
-/

namespace TableMachine

/-- A named global. -/
structure Variable where
  slot : Int
  name : Text
  /-- Whether the program declared it as a global. -/
  explicit : Bool
  value : Value
deriving DecidableEq, Repr

/-- The named globals and declarations of a run. -/
structure Snapshot where
  globals : List Variable
  relations : List Relation
  primaryKeys : List PrimaryKey
deriving DecidableEq, Repr

namespace Snapshot

/-- The variables that hold a table. -/
def tables (s : Snapshot) : List Variable := s.globals.filter fun v => v.value.table?.isSome

/-- One line for every variable, relation and primary key. -/
def text (s : Snapshot) (heap : Heap) : Text :=
  Text.concat [
    Text.concat (s.globals.map fun v =>
      let mark : Text := if v.explicit then " (global)" else []
      Text.concat [v.name, mark, " = ", v.value.render heap, "\n"]),
    Text.concat (s.relations.map fun r => Text.concat ["relation ", r.text, "\n"]),
    Text.concat (s.primaryKeys.map fun k =>
      Text.concat ["primary key ", k.table, ".", k.column, "\n"])]

end Snapshot

/-- The named globals and declarations of the last run. -/
def Machine.snapshot (m : Machine) : Snapshot where
  globals := m.globalNames.entries.map fun (slot, name) =>
    ⟨slot, name, (m.explicitNames.get? slot).isSome, m.global slot⟩
  relations := m.relations
  primaryKeys := m.primaryKeys

end TableMachine
