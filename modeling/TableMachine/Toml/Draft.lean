import TableMachine.Toml.Value

/-! # Drafts

A draft is a document that is still being read, together with what the reading has to remember
about paths. Two notes are kept. A path is implied when a key or header below it mentions it, and a
path that exists can be defined again only while it is implied. A path is an array's when the value
read last under it was one, and only then does a new definition take the place of the old value. The
notes are kept by path alone, so the tables of a repeated header share them.
-/

namespace TableMachine.Toml

/-- A document in the course of being read. -/
structure Draft where
  document : Document
  /-- The paths that are implied. -/
  implied : List (List Text)
  /-- The paths whose value read last was an array. -/
  arrays : List (List Text)
deriving Repr, Inhabited

namespace Draft

/-- The draft at the beginning of a document. -/
def empty : Draft := ⟨.empty, [], []⟩

/-! ## Notes about paths -/

/-- The draft with a path implied. -/
def imply (d : Draft) (path : List Text) : Draft := { d with implied := d.implied.insert path }

/-- The draft with a path implied no longer. -/
def settle (d : Draft) (path : List Text) : Draft := { d with implied := d.implied.erase path }

/-- The path that a note about the kind of a key's value is kept under. The empty key has none of
its own: its notes go to the table that holds it, except in the document itself. -/
def notePath (table : List Text) (key : Text) : List Text :=
  if key = [] && table ≠ [] then table else table ++ [key]

/-- Notes whether the value of a key is an array. -/
def note (d : Draft) (table : List Text) (key : Text) (isArray : Bool) : Draft :=
  let path := notePath table key
  { d with arrays := if isArray then d.arrays.insert path else d.arrays.erase path }

/-- Notes that a path is that of a table. -/
def noteTable (d : Draft) (path : List Text) : Draft := { d with arrays := d.arrays.erase path }

/-! ## Entries -/

/-- The draft with a key of a table set. -/
def put (d : Draft) (table : Nat) (key : Text) (v : Value) : Draft :=
  { d with document := d.document.put table key v }

/-- A new table and the draft with it. -/
def newTable (d : Draft) : Nat × Draft :=
  (d.document.size, { d with document := d.document.addTable })

/-- Defines a key of the table at a path. A key in use has to be implied, and then is implied no
longer: the new value takes the place of the old one if the path is noted as an array's, and is
dropped otherwise. -/
def define? (d : Draft) (path : List Text) (key : Text) (v : Value) : Option Draft := do
  let table ← d.document.tableAt? path
  let full := path ++ [key]
  if (d.document.get? table key).isNone then some (d.put table key v)
  else if full ∈ d.implied then
    some (if full ∈ d.arrays then (d.settle full).put table key v else d.settle full)
  else none

/-- Defines a key of the table at a path and notes the kind of its value. -/
def give? (d : Draft) (path : List Text) (key : Text) (v : Value) : Option Draft :=
  (d.define? path key v).map fun d => d.note path key v.isArray

/-- The table that a path leads to from the given one, whose own path is `walked`. Tables on the way
that do not exist are made, and are implied. -/
def reach? (d : Draft) (table : Nat) (walked : List Text) : List Text → Option (Nat × Draft)
  | [] => some (table, d)
  | key :: path =>
    let walked := walked ++ [key]
    match d.document.get? table key with
    | none =>
      let (inner, d) := d.newTable
      reach? ((d.imply walked).put table key (.table inner)) inner walked path
    | some (.table inner) => reach? d inner walked path
    | some (.tables _ last) => reach? d last walked path
    | some _ => none

/-- Opens the table of a key below a path: a new one, or one that was implied. -/
def openTable? (d : Draft) (path : List Text) (key : Text) : Option Draft := do
  let (_, d) ← d.reach? 0 [] path
  let (inner, d) := d.newTable
  d.define? path key (.table inner)

/-- Adds a table to those of a repeated key below a path. -/
def openElement? (d : Draft) (path : List Text) (key : Text) : Option Draft := do
  let (table, d) ← d.reach? 0 [] path
  let (inner, d) := d.newTable
  match d.document.get? table key with
  | none => some (d.put table key (.tables [] inner))
  | some (.tables before last) => some (d.put table key (.tables (before ++ [last]) inner))
  | some _ => none

/-- Opens the tables that the first parts of a dotted key name, one inside the other. Naming a table
in this way implies it, whether it exists or not. -/
def openParts? (d : Draft) (path : List Text) : List Text → Option Draft
  | [] => some d
  | part :: parts => do
    let d ← (d.imply (path ++ [part])).openTable? path part
    openParts? d (path ++ [part]) parts

/-- Sets a dotted key of a table given by its number, in place of any value that it has. The tables
that its first parts name are made where they do not exist. -/
def enter? (d : Draft) (table : Nat) (key : Text) (v : Value) : List Text → Option Draft
  | [] => some (d.put table key v)
  | part :: parts =>
    match d.document.get? table part with
    | none =>
      let (inner, d) := d.newTable
      enter? (d.put table part (.table inner)) inner key v parts
    | some (.table inner) => enter? d inner key v parts
    | some _ => none

end Draft

end TableMachine.Toml
