import TableMachine.Files
import TableMachine.Fault.Cause
import TableMachine.Value.Heap

/-! # The host and its native functions

A native function runs to completion within one instruction. It sees and changes the host: the
heap, the files and the output. What it has to tell the machine, a fault or declarations about
tables, it leaves in the host's channel. The machine empties the channel before a native runs, and
reads it afterwards.
-/

namespace TableMachine

/-- What was printed, and whether printing is still possible. -/
structure Output where
  written : Array UInt8 := #[]
  closed : Bool := false
deriving Repr, Inhabited

/-- A column of a table, named by a native. -/
structure ColumnRef where
  table : TableRef
  name : Text
deriving DecidableEq, Repr

/-- A relation that a native declares: the column `foreign` refers to the key column `key`. -/
structure DeclaredRelation where
  key : ColumnRef
  foreign : ColumnRef
deriving DecidableEq, Repr

/-- What natives have to tell the machine. -/
structure Channel where
  /-- The first fault that was reported. -/
  cause : Option Cause := none
  /-- Relations in the order of their declaration. -/
  relations : List DeclaredRelation := []
  /-- Primary keys in the order of their declaration. -/
  primaryKeys : List ColumnRef := []

/-- The surroundings of a machine. -/
structure Host where
  heap : Heap
  files : Files
  output : Output := {}
  /-- A counter for natives that need one. -/
  tally : Nat := 0
  /-- What the native that ran last left for the machine. -/
  channel : Channel := {}

namespace Host

/-- The host as a native finds it: nothing is in the channel. -/
def reset (h : Host) : Host := { h with channel := {} }

/-- The host after the machine took the fault. The declarations stay until the next native runs. -/
def withoutCause (h : Host) : Host := { h with channel := { h.channel with cause := none } }

end Host

/-- What a native function leaves behind. -/
structure Report where
  host : Host
  /-- The result of the call, unless there is a fault. -/
  value : Value := .null

/-- A native function. -/
structure Native where
  name : Text
  run : Host → List Value → Report

namespace Report

/-- The report with another channel. -/
def withChannel (r : Report) (channel : Channel) : Report :=
  { r with host := { r.host with channel := channel } }

/-- The fault in the channel. -/
def cause (r : Report) : Option Cause := r.host.channel.cause

/-- The report with a fault, unless it already has one. -/
def raise (r : Report) (cause : Cause) : Report :=
  r.withChannel { r.host.channel with cause := r.cause.orElse fun _ => some cause }

/-- Whether a fault was reported. -/
def failed (r : Report) : Bool := r.cause.isSome

/-- The report with a relation between two columns; none where a value is no column. -/
def relate? (r : Report) (key foreign : Value) : Option Report := do
  let (keyTable, keyName) ← key.column?
  let (foreignTable, foreignName) ← foreign.column?
  let declared : DeclaredRelation := ⟨⟨keyTable, keyName⟩, ⟨foreignTable, foreignName⟩⟩
  let channel := r.host.channel
  some (r.withChannel { channel with relations := channel.relations ++ [declared] })

/-- The report with a primary key; none where the value is no column. -/
def primaryKey? (r : Report) (column : Value) : Option Report := do
  let (table, name) ← column.column?
  let channel := r.host.channel
  some (r.withChannel { channel with primaryKeys := channel.primaryKeys ++ [⟨table, name⟩] })

end Report

end TableMachine
