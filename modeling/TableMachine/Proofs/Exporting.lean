import Mathlib.Data.List.Forall2
import Mathlib.Data.List.Induction
import Mathlib.Data.List.Nodup
import TableMachine.Proofs.Database
import TableMachine.Proofs.Opening

/-! # What an export holds

An export that succeeds leaves a database that mirrors the snapshot: one row for every variable, one table for
every variable that holds one with columns, cell by cell, and one row for every relation and every primary
key, all in the order of the snapshot. `Mirrors` says so by the names of the tables and of their columns and not
by the rows that are offered. The tables that the export found stand before these as they were, so there are no
others exactly if it found none.

The tables are followed from statement to statement. Each of them creates a last table or adds rows to it, and
the indexes on related columns change no table.
-/

namespace TableMachine

/-- The cell of a row under the name of a column. -/
def Database.Table.cell? (d : Database.Table) (row : List Cell) (column : Text) : Option Cell :=
  ((d.columns.map (·.1)).zip row).lookup column

/-- A column that was looked up through an index of the present headers is the one under its header. -/
theorem Table.column?_of_current {t : Table} {i : Nat} {header : Text}
    (current : t.refreshed.indexed = t.headers) (once : t.headers.Nodup)
    (found : t.headers[i]? = some header) :
    t.column? header = some (t.rows.map fun row => row.getD i .null) := by
  obtain ⟨inside, rfl⟩ := List.getElem?_eq_some_iff.mp found
  have position : t.headers.idxOf? t.headers[i] = some i := by
    rw [List.idxOf?_eq_some_iff]
    refine ⟨inside, rfl, fun j before same => ?_⟩
    exact absurd (once.getElem_inj_iff.mp same) (Nat.ne_of_lt before)
  rw [column?, columnIndex?, current, position]
  rfl

namespace Export

variable {heap : Heap} {stamp name path : Text} {s : Snapshot} {before db db' : Database} {files files' : Files}
  {engine : Engine}

/-! ## The mirrored snapshot -/

/-- The values that need no text. -/
def IsNumeric : Value → Prop
  | .null | .bool _ | .number _ => True
  | _ => False

/-- The narrowest affinity for all of the values; nulls alone call for none. -/
def Fitting (values : List Value) : Option Affinity → Prop
  | none => ∀ v ∈ values, v = .null
  | some .text => ∃ v ∈ values, ¬ IsNumeric v
  | some .real => (∀ v ∈ values, IsNumeric v) ∧ ∃ x, .number x ∈ values ∧ x.isInteger = false
  | some .integer =>
    (∀ v ∈ values, IsNumeric v) ∧ (∃ v ∈ values, v ≠ .null) ∧ ∀ x, .number x ∈ values → x.isInteger = true

/-- The stored cells of a row: one for each column, null where the row is too short. -/
structure CopiesRow (heap : Heap) (columns : List (Text × Affinity)) (row : List Value) (cells : List Cell) :
    Prop where
  length : cells.length = columns.length
  cell : ∀ (i : Nat) column, columns[i]? = some column →
    cells[i]? = some (((row[i]?).elim .null (cell heap)).stored column.2)

/-- The column at position `i` is of the given name and fits the values; one for nulls alone holds texts. -/
def FitsColumn (d : Database.Table) (i : Nat) (header : Text) (values : List Value) : Prop :=
  ∃ fitting, Fitting values fitting ∧ d.columns[i]? = some (header, fitting.getD .text)

/-- A table of the database with the columns and the rows of a table. -/
structure Copies (heap : Heap) (name : Text) (t : Table) (d : Database.Table) : Prop where
  name : d.name = name
  headers : d.columns.map (·.1) = t.headers
  /-- The affinity is that of the column that a look-up finds. -/
  affinity : ∀ (i : Nat) header, t.headers[i]? = some header →
    FitsColumn d i header ((t.column? header).getD [])
  /-- Unless a header was replaced since the last look-up, these are the values below the header. -/
  current : t.refreshed.indexed = t.headers → ∀ (i : Nat) header, t.headers[i]? = some header →
    FitsColumn d i header (t.rows.map fun row => row.getD i .null)
  rows : List.Forall₂ (CopiesRow heap d.columns) t.rows d.rows

/-- The row of a variable, by the names of the columns. -/
structure Describes (heap : Heap) (v : Variable) (field : Text → Option Cell) : Prop where
  name : field "name" = some (.text v.name)
  type : field "type" = some (.text v.value.kind.name)
  explicit : field "is_global" = some (.integer (if v.explicit then 1 else 0))
  value : field "value" = some (.text ((v.value.render heap).take 10000))
  table : ∀ r, v.value.table? = some r →
    field "table_name" = some (.text (heap.table r).displayName) ∧
      field "row_count" = some (.integer (heap.table r).rows.length) ∧
      field "column_count" = some (.integer (heap.table r).headers.length)
  noTable : v.value.table? = none →
    field "table_name" = some .null ∧ field "row_count" = some .null ∧ field "column_count" = some .null

/-- The table of a variable that is exported under the name of the variable. -/
structure Exported (heap : Heap) (v : Variable) (t : Table) : Prop where
  held : ∃ r, v.value.table? = some r ∧ heap.table r = t
  name : v.name.startsWith "_datacode_" = false
  headers : t.headers ≠ []

/-- The database holds what the snapshot does. -/
structure Mirrors (heap : Heap) (s : Snapshot) (db : Database) : Prop where
  globals : ∃ d, db.table? "_datacode_variables" = some d ∧
    List.Forall₂ (fun v row => Describes heap v (d.cell? row)) s.globals d.rows
  data : ∀ v ∈ s.globals, ∀ t, Exported heap v t → ∃ d, db.table? v.name = some d ∧ Copies heap v.name t d
  relations : ∃ d, db.table? "_datacode_relations" = some d ∧
    List.Forall₂ (fun r row => d.cell? row "source_table" = some (.text r.sourceTable) ∧
      d.cell? row "source_column" = some (.text r.sourceColumn) ∧
      d.cell? row "target_table" = some (.text r.targetTable) ∧
      d.cell? row "target_column" = some (.text r.targetColumn)) s.relations d.rows
  primaryKeys : ∃ d, db.table? "_datacode_primary_keys" = some d ∧
    List.Forall₂ (fun k row => d.cell? row "table_name" = some (.text k.table) ∧
      d.cell? row "column_name" = some (.text k.column)) s.primaryKeys d.rows

/-- There are no tables but the catalogues and those of the variables. -/
def OnlyData (heap : Heap) (s : Snapshot) (db : Database) : Prop :=
  ∀ d ∈ db.tables,
    d.name ∈ ([↑"_datacode_variables", ↑"_datacode_relations", ↑"_datacode_primary_keys"] : List Text) ∨
      ∃ v ∈ s.globals, ∃ t, Exported heap v t ∧ Copies heap v.name t d

/-! ## Affinities -/

/-- What a value calls for alone. -/
theorem affinity?_cases (v : Value) :
    (v = .null ∧ affinity? v = none) ∨
      (IsNumeric v ∧ v ≠ .null ∧ (∀ x, v = .number x → x.isInteger = true) ∧ affinity? v = some .integer) ∨
      (∃ x, v = .number x ∧ x.isInteger = false ∧ affinity? v = some .real) ∨
      (¬ IsNumeric v ∧ affinity? v = some .text) := by
  cases v with
  | null => exact .inl ⟨rfl, rfl⟩
  | bool b => exact .inr (.inl ⟨trivial, nofun, nofun, rfl⟩)
  | number x =>
      cases whole : x.isInteger with
      | true =>
          refine .inr (.inl ⟨trivial, nofun, ?_, by rw [affinity?, whole]; rfl⟩)
          rintro y ⟨⟩
          exact whole
      | false => exact .inr (.inr (.inl ⟨x, rfl, whole, by rw [affinity?, whole]; rfl⟩))
  | _ => exact .inr (.inr (.inr ⟨id, rfl⟩))

theorem Fitting.widenBy {values : List Value} {fitting : Option Affinity} (fits : Fitting values fitting)
    (v : Value) : Fitting (values ++ [v]) (widenBy fitting v) := by
  -- What the new value calls for, against each affinity that the values before it may call for.
  rcases affinity?_cases v with ⟨rfl, alone⟩ | ⟨numeric, value, whole, alone⟩ | ⟨x, rfl, whole, alone⟩ |
    ⟨other, alone⟩
  all_goals
    rcases fitting with _ | _ | _ | _
    all_goals
      simp only [Export.widenBy, alone, Fitting, widen, List.mem_append, List.mem_singleton, or_imp,
        forall_and, forall_eq, or_and_right, exists_or, exists_eq_left] at fits ⊢
      grind [IsNumeric]

theorem fitting_foldl (values : List Value) : Fitting values (values.foldl widenBy none) := by
  induction values using List.reverseRecOn with
  | nil => exact nofun
  | append_singleton values v ih =>
      rw [List.foldl_append]
      exact ih.widenBy v

/-! ## Statement by statement -/

/-- A catalogue with the given rows. -/
def Catalogue.table (c : Catalogue) (rows : List (List Cell)) : Database.Table where
  name := c.name
  statement := Statement.declare c.name (c.columns.map (·.declaration))
  columns := c.columns.map fun column => (column.name, column.affinity)
  rows := rows

/-- The table of a variable as it is stored. -/
def dataTable (heap : Heap) (named : Text × Table) : Database.Table where
  name := named.1
  statement := Statement.createTable named.1 (columns named.2)
  columns := columns named.2
  rows := (named.2.rows.map (rowCells heap named.2.columnCount)).map (Database.storedRow (columns named.2))

/-- The stored tables of those that have columns. -/
def dataTables (heap : Heap) (named : List (Text × Table)) : List Database.Table :=
  (named.filter fun n => !n.2.headers.isEmpty).map (dataTable heap)

def relationRow (r : Relation) : List Cell :=
  [.text r.sourceTable, .text r.sourceColumn, .text r.targetTable, .text r.targetColumn]

def keyRow (k : PrimaryKey) : List Cell := [.text k.table, .text k.column]

theorem addCatalogue_ok {c : Catalogue} (added : addCatalogue db c = .ok db') :
    db'.tables = db.tables ++ [c.table []] ∧ db'.indexes = db.indexes :=
  Database.createTable_ok (ok_of_mapError added)

/-- A catalogue takes rows as they are, where its columns store their cells so. -/
theorem tables_insert_catalogue {c : Catalogue} {earlier : List Database.Table} {rows more : List (List Cell)}
    (tables : db.tables = earlier ++ [c.table rows])
    (kept : ∀ row ∈ more, Database.storedRow (c.table []).columns row = row) :
    (db.insert c.name more).tables = earlier ++ [c.table (rows ++ more)] := by
  have inserted : (db.insert c.name more).tables =
      earlier ++ [c.table (rows ++ more.map (Database.storedRow (c.table []).columns))] :=
    Database.tables_insert_last tables
  rw [inserted, List.map_congr_left kept, List.map_id']

theorem addTable_ok {named : Text × Table} (added : addTable heap db named = .ok db') :
    db'.tables = db.tables ++ dataTables heap [named] ∧ db'.indexes = db.indexes := by
  unfold addTable at added
  simp only at added
  split at added
  · rename_i empty
    cases added
    rw [dataTables, List.filter_cons_of_neg (by rw [empty]; decide), List.filter_nil, List.map_nil,
      List.append_nil]
    exact ⟨rfl, rfl⟩
  · rename_i headers
    obtain ⟨between, created, inserted⟩ := ok_of_bind added
    cases inserted
    obtain ⟨tables, indexes⟩ := Database.createTable_ok (ok_of_mapError created)
    rw [dataTables, List.filter_cons_of_pos (by rw [Bool.eq_false_iff.mpr headers]; rfl)]
    exact ⟨Database.tables_insert_last tables, indexes⟩

theorem addIndex_tables {exported : List (Text × Table)} {table column : Text}
    (added : addIndex exported db table column = .ok db') : db'.tables = db.tables := by
  unfold addIndex at added
  split at added
  · cases added
    rfl
  · split at added
    · cases added
      rfl
    · exact Database.createIndex_tables (ok_of_mapError added)

theorem addRelation_ok {exported : List (Text × Table)} {r : Relation} {earlier : List Database.Table}
    {rows : List (List Cell)} (tables : db.tables = earlier ++ [relationRows.table rows])
    (added : addRelation exported db r = .ok db') :
    db'.tables = earlier ++ [relationRows.table (rows ++ [relationRow r])] := by
  obtain ⟨between, source, target⟩ := ok_of_bind added
  rw [addIndex_tables target, addIndex_tables source]
  refine tables_insert_catalogue tables ?_
  rw [List.forall_mem_singleton]
  rfl

/-! ## From end to end -/

/-- What every step of a fold keeps for the items it is done with holds in the end for all of them. -/
theorem holds_of_foldlM {ε α β : Type} {f : β → α → Except ε β} {items : List α} {b b' : β}
    (holds : List α → β → Prop)
    (step : ∀ done a b b', holds done b → f b a = .ok b' → holds (done ++ [a]) b')
    (done : List α) (start : holds done b) (ran : items.foldlM f b = .ok b') : holds (done ++ items) b' := by
  induction items generalizing done b with
  | nil =>
      cases ran
      rwa [List.append_nil]
  | cons a rest ih =>
      rw [List.foldlM_cons] at ran
      obtain ⟨between, first, later⟩ := ok_of_bind ran
      rw [List.append_cons]
      exact ih _ (step _ _ _ _ start first) later

theorem foldlM_addTable_ok {named : List (Text × Table)} (added : named.foldlM (addTable heap) db = .ok db') :
    db'.tables = db.tables ++ dataTables heap named ∧ db'.indexes = db.indexes := by
  refine holds_of_foldlM (fun done now => now.tables = db.tables ++ dataTables heap done ∧ now.indexes = db.indexes)
    ?_ [] ⟨(List.append_nil _).symm, rfl⟩ added
  intro done named now next ⟨tables, indexes⟩ added
  obtain ⟨more, same⟩ := addTable_ok added
  refine ⟨?_, same.trans indexes⟩
  rw [more, tables, List.append_assoc, dataTables, dataTables, dataTables, List.filter_append,
    List.map_append]

theorem foldlM_addRelation_ok {exported : List (Text × Table)} {relations : List Relation}
    {earlier : List Database.Table} (tables : db.tables = earlier ++ [relationRows.table []])
    (added : relations.foldlM (addRelation exported) db = .ok db') :
    db'.tables = earlier ++ [relationRows.table (relations.map relationRow)] := by
  refine holds_of_foldlM (fun done now => now.tables = earlier ++ [relationRows.table (done.map relationRow)]) ?_
    [] tables added
  intro done r now next tables added
  rw [List.map_append]
  exact addRelation_ok tables added

theorem storedRow_variableRow (v : Variable) :
    Database.storedRow (variableRows.table []).columns (variableRow heap stamp v) =
      variableRow heap stamp v := by
  unfold variableRow
  cases v.value.table? <;> rfl

/-- Variables with different names keep their rows. -/
theorem foldl_replace_globals (heap : Heap) (stamp : Text) {globals : List Variable} {earlier : List Database.Table}
    (names : (globals.map (·.name)).Nodup) (tables : db.tables = earlier ++ [variableRows.table []])
    (filled : globals.foldl (fun db v => db.replace variableRows.name (variableRow heap stamp v)) db = db') :
    db'.tables = earlier ++ [variableRows.table (globals.map (variableRow heap stamp))] := by
  -- The columns store the cells as they are offered, so the first cells are the names.
  have stored : (globals.map (variableRow heap stamp)).map
      (Database.storedRow (variableRows.table []).columns) = globals.map (variableRow heap stamp) := by
    rw [List.map_map]
    exact List.map_congr_left fun v _ => storedRow_variableRow v
  have unlike : ((globals.map (·.name)).map fun name => some (Cell.text name)).Nodup :=
    names.map fun a b same => by injection same with same; injection same
  rw [List.map_map] at unlike
  rw [← List.foldl_map] at filled
  subst filled
  have replaced := Database.foldl_replace_last tables
    (by rw [stored, Catalogue.table, List.nil_append, List.map_map]; exact unlike)
  rw [stored] at replaced
  exact replaced

/-- The tables that an export adds. -/
def addedTables (heap : Heap) (stamp : Text) (s : Snapshot) : List Database.Table :=
  [variableRows.table (s.globals.map (variableRow heap stamp))] ++ dataTables heap (tables heap s) ++
    [relationRows.table (s.relations.map relationRow)] ++ [keyRows.table (s.primaryKeys.map keyRow)]

theorem database_tables (names : (s.globals.map (·.name)).Nodup) (made : database before heap stamp s = .ok db) :
    db.tables = before.tables ++ addedTables heap stamp s := by
  -- The statements in their order, each from the tables that the one before it left.
  obtain ⟨first, created, made⟩ := ok_of_bind made
  have filled := foldl_replace_globals heap stamp names (addCatalogue_ok created).1 rfl
  obtain ⟨second, written, made⟩ := ok_of_bind made
  have data := (foldlM_addTable_ok written).1
  obtain ⟨third, created, made⟩ := ok_of_bind made
  have tables := (addCatalogue_ok created).1
  obtain ⟨fourth, added, made⟩ := ok_of_bind made
  have related := foldlM_addRelation_ok tables added
  obtain ⟨fifth, created, made⟩ := ok_of_bind made
  have tables := (addCatalogue_ok created).1
  cases made
  rw [related, data, filled] at tables
  refine (tables_insert_catalogue tables ?_).trans ?_
  · rw [List.forall_mem_map]
    exact fun k _ => rfl
  · simp only [addedTables, List.append_assoc]
    rfl

/-! ## Reading the tables -/

theorem length_rowCells (count : Nat) (row : List Value) : (rowCells heap count row).length = count := by
  rw [rowCells, List.length_append, List.length_map, List.length_take, List.length_replicate]
  omega

theorem getElem?_rowCells {count i : Nat} {row : List Value} (inside : i < count) :
    (rowCells heap count row)[i]? = some ((row[i]?).elim .null (cell heap)) := by
  have length : ((row.take count).map (cell heap)).length = min count row.length := by
    rw [List.length_map, List.length_take]
  by_cases given : i < row.length
  · rw [rowCells, List.getElem?_append_left (by omega), List.getElem?_map, List.getElem?_take_of_lt inside,
      List.getElem?_eq_getElem given]
    rfl
  · rw [rowCells, List.getElem?_append_right (by omega), List.getElem?_replicate_of_lt (by omega),
      List.getElem?_eq_none (by omega)]
    rfl

theorem copiesRow_storedRow (columns : List (Text × Affinity)) (row : List Value) :
    CopiesRow heap columns row (Database.storedRow columns (rowCells heap columns.length row)) where
  length := by rw [Database.storedRow, List.length_zipWith, length_rowCells, Nat.min_self]
  cell := by
    intro i column found
    have inside := (List.getElem?_eq_some_iff.mp found).1
    rw [Database.storedRow, List.getElem?_zipWith, found, getElem?_rowCells inside]

theorem headers_columns (t : Table) : (columns t).map (·.1) = t.headers := by
  rw [columns, List.map_map]
  exact List.map_id _

theorem fitsColumn_dataTable {t : Table} {i : Nat} {header : Text} (found : t.headers[i]? = some header) :
    FitsColumn (dataTable heap (name, t)) i header ((t.column? header).getD []) := by
  refine ⟨_, fitting_foldl _, ?_⟩
  rw [dataTable, columns, List.getElem?_map, found]
  rfl

theorem copies_dataTable {t : Table} (once : Database.hasTwice ((columns t).map (·.1)) = false) :
    Copies heap name t (dataTable heap (name, t)) where
  name := rfl
  headers := headers_columns t
  affinity _ _ := fitsColumn_dataTable
  current := by
    intro current i header found
    rw [headers_columns] at once
    have fits : FitsColumn (dataTable heap (name, t)) i header _ := fitsColumn_dataTable found
    rwa [Table.column?_of_current current (Database.nodup_of_hasTwice once) found] at fits
  rows := by
    have width : t.columnCount = (columns t).length := (List.length_map _).symm
    rw [dataTable, width, List.map_map, List.forall₂_map_right_iff, List.forall₂_same]
    exact fun row _ => copiesRow_storedRow _ row

theorem mem_dataTables {d : Database.Table} :
    d ∈ dataTables heap (tables heap s) ↔
      ∃ v ∈ s.globals, ∃ t, Exported heap v t ∧ dataTable heap (v.name, t) = d := by
  simp only [dataTables, tables, List.mem_map, List.mem_filter, List.mem_filterMap, Bool.not_eq_true',
    List.isEmpty_eq_false_iff]
  constructor
  · rintro ⟨⟨name, t⟩, ⟨⟨v, member, found⟩, headers⟩, rfl⟩
    split at found
    · rename_i r held
      split at found
      · cases found
      · rename_i name
        cases found
        exact ⟨v, member, _, ⟨⟨r, held, rfl⟩, Bool.eq_false_iff.mpr name, headers⟩, rfl⟩
    · cases found
  · rintro ⟨v, member, t, ⟨⟨r, held, rfl⟩, name, headers⟩, rfl⟩
    refine ⟨_, ⟨⟨v, member, ?_⟩, headers⟩, rfl⟩
    rw [held]
    exact if_neg (Bool.eq_false_iff.mp name)

theorem describes_variableRow (rows : List (List Cell)) (v : Variable) :
    Describes heap v ((variableRows.table rows).cell? (variableRow heap stamp v)) := by
  unfold variableRow
  cases held : v.value.table? with
  | none => exact ⟨rfl, rfl, rfl, rfl, by rw [held]; exact nofun, fun _ => ⟨rfl, rfl, rfl⟩⟩
  | some r =>
      refine ⟨rfl, rfl, rfl, rfl, ?_, by rw [held]; exact nofun⟩
      rw [held]
      rintro _ ⟨⟩
      exact ⟨rfl, rfl, rfl⟩

theorem mem_addedTables {d : Database.Table} : d ∈ addedTables heap stamp s ↔
    ((d = variableRows.table (s.globals.map (variableRow heap stamp)) ∨
      ∃ v ∈ s.globals, ∃ t, Exported heap v t ∧ dataTable heap (v.name, t) = d) ∨
      d = relationRows.table (s.relations.map relationRow)) ∨
      d = keyRows.table (s.primaryKeys.map keyRow) := by
  simp only [addedTables, List.mem_append, List.mem_singleton, mem_dataTables]

theorem variables_mem : variableRows.table (s.globals.map (variableRow heap stamp)) ∈ addedTables heap stamp s :=
  mem_addedTables.mpr (.inl (.inl (.inl rfl)))

theorem data_mem {v : Variable} {t : Table} (member : v ∈ s.globals) (exported : Exported heap v t) :
    dataTable heap (v.name, t) ∈ addedTables heap stamp s :=
  mem_addedTables.mpr (.inl (.inl (.inr ⟨v, member, t, exported, rfl⟩)))

theorem relations_mem : relationRows.table (s.relations.map relationRow) ∈ addedTables heap stamp s :=
  mem_addedTables.mpr (.inl (.inr rfl))

theorem keys_mem : keyRows.table (s.primaryKeys.map keyRow) ∈ addedTables heap stamp s :=
  mem_addedTables.mpr (.inr rfl)

section

variable (tables : db.tables = before.tables ++ addedTables heap stamp s)

include tables

theorem mem_of_mem_addedTables {d : Database.Table} (added : d ∈ addedTables heap stamp s) : d ∈ db.tables := by
  rw [tables]
  exact List.mem_append_right _ added

theorem copies_of_exported {v : Variable} {t : Table} (member : v ∈ s.globals) (exported : Exported heap v t) :
    dataTable heap (v.name, t) ∈ db.tables ∧ Copies heap v.name t (dataTable heap (v.name, t)) := by
  have written := mem_of_mem_addedTables tables (data_mem member exported)
  exact ⟨written, copies_dataTable (db.wellNamed.once _ written)⟩

theorem mirrors_of_tables : Mirrors heap s db where
  globals := by
    refine ⟨_, Database.table?_eq (mem_of_mem_addedTables tables variables_mem), ?_⟩
    refine List.forall₂_map_right_iff.mpr (List.forall₂_same.mpr fun v _ => ?_)
    exact describes_variableRow _ v
  data := by
    intro v member t exported
    obtain ⟨written, copied⟩ := copies_of_exported tables member exported
    exact ⟨_, Database.table?_eq written, copied⟩
  relations := by
    refine ⟨_, Database.table?_eq (mem_of_mem_addedTables tables relations_mem), ?_⟩
    refine List.forall₂_map_right_iff.mpr (List.forall₂_same.mpr fun r _ => ?_)
    exact ⟨rfl, rfl, rfl, rfl⟩
  primaryKeys := by
    refine ⟨_, Database.table?_eq (mem_of_mem_addedTables tables keys_mem), ?_⟩
    refine List.forall₂_map_right_iff.mpr (List.forall₂_same.mpr fun k _ => ?_)
    exact ⟨rfl, rfl⟩

/-- A table that was found is none of those that are added, since these have free names. -/
theorem onlyData_iff : OnlyData heap s db ↔ before.tables = [] := by
  constructor
  · intro only
    have apart := db.wellNamed.apart
    rw [tables, List.pairwise_append] at apart
    rw [List.eq_nil_iff_forall_not_mem]
    intro d standing
    have free {added : Database.Table} (member : added ∈ addedTables heap stamp s) : d.name ≠ added.name := by
      intro same
      have different := apart.2.2 d standing added member
      rw [same, Database.sameName_self] at different
      cases different
    rcases only d (by rw [tables]; exact List.mem_append_left _ standing) with catalogue | ⟨v, member, t, exported, copied⟩
    · simp only [List.mem_cons, List.not_mem_nil, or_false] at catalogue
      rcases catalogue with name | name | name
      · exact free variables_mem name
      · exact free relations_mem name
      · exact free keys_mem name
    · exact free (data_mem member exported) copied.name
  · intro none_ d written
    rw [tables, none_, List.nil_append] at written
    rcases mem_addedTables.mp written with ((rfl | ⟨v, member, t, exported, rfl⟩) | rfl) | rfl
    · exact .inl (.head _)
    · exact .inr ⟨v, member, t, exported, (copies_of_exported tables member exported).2⟩
    · exact .inl (.tail _ (.head _))
    · exact .inl (.tail _ (.tail _ (.head _)))

end

namespace Ragged

def store : Heap where
  tables := #[
    ⟨"Ragged", ["id", "Name"], [[.number (.ofInt 1), .string "left", .bool true], [.bool false],
      [.number (.ofInt (-2)), .null]], ["id", "Name"]⟩,
    ⟨"reserved", ["id"], [], ["id"]⟩, ⟨[], [], [[.null]], []⟩]

def snapshot : Snapshot where
  globals := [⟨0, "ragged", true, .table ⟨0⟩⟩, ⟨1, "_datacode_ragged", false, .table ⟨1⟩⟩,
    ⟨2, "bare", false, .table ⟨2⟩⟩, ⟨3, "text", false, .string "right"⟩]
  relations := [⟨"ragged", "id", "other", "id"⟩, ⟨"ragged", "id", "ragged", "Name"⟩]
  primaryKeys := [⟨"ragged", "id"⟩]

def saved : Option ExportError × Files := save .standard (.empty []) "ragged.db" "now" store (some snapshot)

def kept : Database.Table := ⟨"kept", "CREATE TABLE kept (x TEXT)", [("x", .text)], [[.text "v"]]⟩

def earlier : Database := ⟨[kept], [], ⟨by decide, by decide⟩⟩

def disk : Files := ⟨[], [([↑"ragged.db"], .database earlier)]⟩

def added : Option ExportError × Files := save .standard disk "ragged.db?x" "now" store (some snapshot)

end Ragged

end Export

end TableMachine
