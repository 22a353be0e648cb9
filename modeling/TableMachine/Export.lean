import TableMachine.Database.Engine
import TableMachine.Files
import TableMachine.Machine.Snapshot

/-! # Exporting a snapshot

A snapshot becomes a database: a catalogue of the variables, one table for every variable that
holds one, a catalogue of the relations with an index on each related column, and a catalogue of
the primary keys. The parts are written in this order, and the first refusal ends the export.

What stands at the path is removed first. The engine then opens what the path names to it, which may
stand elsewhere: the parts are added to the database found there, all of them or none.
-/

namespace TableMachine

/-- Why a snapshot was not exported. -/
inductive ExportError where
  /-- There was nothing to export. -/
  | noSnapshot
  /-- What stood at the path could not be removed. -/
  | notRemoved (path : Text) (failure : FileFailure)
  /-- No database can be opened at the path. -/
  | notOpened (refusal : Refusal)
  /-- The database refused a catalogue. -/
  | catalogueRefused (name : Text) (refusal : Refusal)
  /-- The database refused the table of a variable. -/
  | tableRefused (name : Text) (refusal : Refusal)
  /-- The database refused an index. -/
  | indexRefused (table column : Text) (refusal : Refusal)
deriving DecidableEq, Repr

namespace ExportError

/-- The wording of a failed export. -/
def message : ExportError → Text
  | noSnapshot => "export: nil snapshot"
  | notRemoved path failure => Text.concat ["removing ", path, ": ", failure.message]
  | notOpened refusal => Text.concat ["opening database: ", refusal.message]
  | catalogueRefused name refusal => Text.concat ["creating ", name, ": ", refusal.message]
  | tableRefused name refusal => Text.concat ["creating table ", name, ": ", refusal.message]
  | indexRefused table column refusal =>
    Text.concat ["indexing ", table, ".", column, ": ", refusal.message]

end ExportError

namespace Export

/-! ## Columns and cells -/

/-- The affinity that fits a value; null fits every one. -/
def affinity? : Value → Option Affinity
  | .null => none
  | .bool _ => some .integer
  | .number x => some (if x.isInteger then .integer else .real)
  | _ => some .text

/-- The affinity that fits what each of two affinities fits. -/
def widen (a b : Affinity) : Affinity :=
  if a = .text ∨ b = .text then .text else if a = b then a else .real

/-- The affinity that fits every value so far and one more. -/
def widenBy (fitting : Option Affinity) (v : Value) : Option Affinity :=
  match fitting, affinity? v with
  | none, found => found
  | some a, none => some a
  | some a, some b => some (widen a b)

/-- The affinity of a column that holds the given values; a column of nulls holds texts. -/
def columnAffinity (values : List Value) : Affinity :=
  (values.foldl widenBy none).getD .text

/-- A truth value as a cell. -/
def truth (b : Bool) : Cell := .integer (if b then 1 else 0)

/-- Whole numbers from here on are offered as reals. -/
def wholeLimit : Nat := pow2 53

/-- The cell that a value is offered as. -/
def cell (heap : Heap) : Value → Cell
  | .null => .null
  | .bool b => truth b
  | .number x =>
    if x.isInteger && x.wholePart < wholeLimit then .integer x.toInt else .real x
  | v => .text (v.render heap)

/-! ## Catalogues -/

/-- The beginning of the names of the catalogues; a variable with such a name gets no table. -/
def reservedStart : Text := "_datacode_"

/-- A column of a catalogue. -/
structure FixedColumn where
  name : Text
  affinity : Affinity
  /-- What the declaration demands of the cells. -/
  constraint : Text
deriving DecidableEq, Repr

/-- The declaration of a column. -/
def FixedColumn.declaration (c : FixedColumn) : Text :=
  Text.concat [c.name, " ", c.affinity.typeName, c.constraint]

/-- A table with a fixed layout. -/
structure Catalogue where
  name : Text
  columns : List FixedColumn
deriving DecidableEq, Repr

/-- A cell that may not be null. -/
def required : Text := " NOT NULL"

/-- One row for every variable. -/
def variableRows : Catalogue where
  name := "_datacode_variables"
  columns := [
    ⟨"name", .text, " PRIMARY KEY"⟩,
    ⟨"type", .text, required⟩,
    ⟨"is_global", .integer, required⟩,
    ⟨"table_name", .text, []⟩,
    ⟨"table_id", .text, []⟩,
    ⟨"row_count", .integer, []⟩,
    ⟨"column_count", .integer, []⟩,
    ⟨"value", .text, []⟩,
    ⟨"created_at", .text, required⟩]

/-- One row for every relation. -/
def relationRows : Catalogue where
  name := "_datacode_relations"
  columns := [
    ⟨"source_table", .text, required⟩,
    ⟨"source_column", .text, required⟩,
    ⟨"target_table", .text, required⟩,
    ⟨"target_column", .text, required⟩]

/-- One row for every primary key. -/
def keyRows : Catalogue where
  name := "_datacode_primary_keys"
  columns := [⟨"table_name", .text, required⟩, ⟨"column_name", .text, required⟩]

/-- The database with an empty catalogue. -/
def addCatalogue (db : Database) (c : Catalogue) : Except ExportError Database :=
  (db.createTable c.name c.name (Statement.declare c.name (c.columns.map (·.declaration)))
    (c.columns.map fun column => (column.name, column.affinity))).mapError (.catalogueRefused c.name)

/-- The number of bytes of a value's text that are kept. -/
def maxText : Nat := 10000

/-- The row of a variable. `stamp` says when the export was made. -/
def variableRow (heap : Heap) (stamp : Text) (v : Variable) : List Cell :=
  let described : List Cell :=
    match v.value.table? with
    | some r =>
      let t := heap.table r
      [.text t.displayName, .text (Text.ofNat r.id), .integer t.rowCount, .integer t.columnCount]
    | none => [.null, .null, .null, .null]
  [.text v.name, .text v.value.kind.name, truth v.explicit] ++ described
    ++ [.text ((v.value.render heap).take maxText), .text stamp]

/-! ## Tables of variables -/

/-- The variables that get a table of their own name, with that table. -/
def tables (heap : Heap) (s : Snapshot) : List (Text × Table) :=
  s.globals.filterMap fun v =>
    match v.value.table? with
    | some r => if v.name.startsWith reservedStart then none else some (v.name, heap.table r)
    | none => none

/-- The columns of a table with their affinities. -/
def columns (t : Table) : List (Text × Affinity) :=
  t.headers.map fun header => (header, columnAffinity ((t.column? header).getD []))

/-- A row with one cell for each of `count` columns: nulls where it is too short. -/
def rowCells (heap : Heap) (count : Nat) (row : List Value) : List Cell :=
  (row.take count).map (cell heap) ++ List.replicate (count - row.length) .null

/-- The database with the table of a variable and its rows. A table without columns is left out. -/
def addTable (heap : Heap) (db : Database) (named : Text × Table) : Except ExportError Database :=
  let (name, t) := named
  if t.headers.isEmpty then .ok db
  else do
    let db ← (db.createTable name (Statement.quoted name) (Statement.createTable name (columns t))
      (columns t)).mapError (.tableRefused name)
    return db.insert name (t.rows.map (rowCells heap t.columnCount))

/-! ## Relations -/

/-- The table of the given name; of several the last. -/
def findTable? (exported : List (Text × Table)) (name : Text) : Option Table :=
  exported.reverse.lookup name

/-- The name of the index on a column. -/
def indexName (table column : Text) : Text := Text.concat ["idx_", table, "_", column]

/-- The database with an index on a column of an exported table; other columns have none. -/
def addIndex (exported : List (Text × Table)) (db : Database) (table column : Text) :
    Except ExportError Database :=
  match findTable? exported table with
  | none => .ok db
  | some t =>
    if !t.hasColumn column then .ok db
    else
      let name := indexName table column
      (db.createIndex ⟨name, Statement.createIndex name table column, table, column⟩).mapError
        (.indexRefused table column)

/-- The database with a relation and an index on each of its ends. -/
def addRelation (exported : List (Text × Table)) (db : Database) (r : Relation) :
    Except ExportError Database := do
  let db := db.insert relationRows.name
    [[.text r.sourceTable, .text r.sourceColumn, .text r.targetTable, .text r.targetColumn]]
  let db ← addIndex exported db r.sourceTable r.sourceColumn
  addIndex exported db r.targetTable r.targetColumn

/-! ## The whole database -/

/-- The database with a snapshot added. -/
def database (db : Database) (heap : Heap) (stamp : Text) (s : Snapshot) :
    Except ExportError Database := do
  let db ← addCatalogue db variableRows
  let db := s.globals.foldl (fun db v => db.replace variableRows.name (variableRow heap stamp v)) db
  let exported := tables heap s
  let db ← exported.foldlM (addTable heap) db
  let db ← addCatalogue db relationRows
  let db ← s.relations.foldlM (addRelation exported) db
  let db ← addCatalogue db keyRows
  return db.insert keyRows.name
    (s.primaryKeys.map fun k => [.text k.table, .text k.column])

/-! ## Database files -/

/-- The files without what stood at the path; that nothing stood there is no failure. -/
def clear (files : Files) (path : Text) : Except ExportError Files :=
  match files.remove path with
  | .ok files => .ok files
  | .error failure =>
    if failure.reason = .missing then .ok files else .error (.notRemoved path failure)

/-- Where an open database is kept. -/
inductive Place where
  | memory
  | file (location : List Text)
deriving DecidableEq, Repr

/-- The place of the database that the engine opens for a path. -/
def place (engine : Engine) (files : Files) (path : Text) : Except ExportError Place :=
  match engine.opens path with
  | .error refusal => .error (.notOpened refusal)
  | .ok .memory => .ok .memory
  | .ok (.file name) =>
    match files.writable (Path.absolute files.workingPath name) with
    | .error _ => .error (.notOpened .noFile)
    | .ok location => .ok (.file location)

namespace Place

/-- The database that stands at the place: where there is no file, that of an empty one. -/
def held (engine : Engine) (files : Files) : Place → Except Refusal Database
  | memory => .ok .empty
  | file location =>
    match files.at? location with
    | none => engine.reads []
    | some (.file content) => engine.reads content
    | some (.database db) => .ok db
    | some .directory => .error .noFile

/-- The files once a database was opened at the place: there is a file. -/
def opened (files : Files) : Place → Files
  | memory => files
  | file location =>
    if (files.at? location).isSome then files else files.put location (.file [])

/-- The files with the database stored at the place. -/
def store (files : Files) (db : Database) : Place → Files
  | memory => files
  | file location => files.put location (.database db)

end Place

/-- The database that stands at a place, with a snapshot added. Only the first statement asks what
stands there. -/
def extended (engine : Engine) (files : Files) (place : Place) (heap : Heap) (stamp : Text)
    (s : Snapshot) : Except ExportError Database := do
  let before ← (place.held engine files).mapError (.catalogueRefused variableRows.name)
  database before heap stamp s

/-- Adds a snapshot to the database that the engine opens for a path, once what stood at the path is
removed. A refused export adds nothing. -/
def save (engine : Engine) (files : Files) (path stamp : Text) (heap : Heap) (s : Option Snapshot) :
    Option ExportError × Files :=
  match s with
  | none => (some .noSnapshot, files)
  | some s =>
    match clear files path with
    | .error e => (some e, files)
    | .ok files =>
      match place engine files path with
      | .error e => (some e, files)
      | .ok place =>
        match extended engine files place heap stamp s with
        | .error e => (some e, place.opened files)
        | .ok db => (none, place.store files db)

/-- The database of a file. -/
def load? (engine : Engine) (files : Files) (path : Text) : Option Database :=
  match files.stat path with
  | .ok (.database db) => some db
  | .ok (.file content) => (engine.reads content).toOption
  | _ => none

end Export

end TableMachine
