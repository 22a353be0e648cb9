import TableMachine.Database.Refusal

/-! # A relational database as a value

The part of a relational store that an export can show: tables with typed columns and rows in
insertion order, and indexes. Names are compared without regard to ASCII case. No two tables have
one name and no two columns of a table; a database carries this, and creating a table and adding
rows keep it.
-/

namespace TableMachine

namespace Database

/-- A table of the database. -/
structure Table where
  /-- Its name. -/
  name : Text
  /-- The statement that created it. -/
  statement : Text
  /-- Its columns in order. -/
  columns : List (Text × Affinity)
  /-- Its rows in insertion order. -/
  rows : List (List Cell)
deriving DecidableEq, Repr

/-- An index of the database. -/
structure Index where
  /-- Its name. -/
  name : Text
  /-- The statement that created it. -/
  statement : Text
  /-- The table it is on. -/
  table : Text
  /-- The column it is on. -/
  column : Text
deriving DecidableEq, Repr

/-! ## Names -/

/-- Whether two names are one to the database. -/
def sameName (a b : Text) : Bool := a.lower == b.lower

theorem sameName_self (name : Text) : sameName name name = true := beq_self_eq_true _

theorem sameName_comm (a b : Text) : sameName a b = sameName b a := BEq.comm

/-- Whether some name of the list occurs twice. -/
def hasTwice : List Text → Bool
  | [] => false
  | name :: rest => rest.any (sameName name) || hasTwice rest

/-- A name stands for one table, and for one column of a table. -/
structure WellNamed (tables : List Table) : Prop where
  apart : tables.Pairwise fun t u => sameName t.name u.name = false
  once : ∀ t ∈ tables, hasTwice (t.columns.map (·.1)) = false

namespace WellNamed

variable {tables : List Table} {t : Table}

theorem nil : WellNamed [] where
  apart := .nil
  once _ member := absurd member List.not_mem_nil

/-- Rows may change under the names. -/
theorem map {change : Table → Table} (wellNamed : WellNamed tables)
    (name : ∀ t, (change t).name = t.name) (columns : ∀ t, (change t).columns = t.columns) :
    WellNamed (tables.map change) where
  apart := by
    rw [List.pairwise_map]
    refine wellNamed.apart.imp fun apart => ?_
    rwa [name, name]
  once := by
    rw [List.forall_mem_map]
    intro t member
    rw [columns]
    exact wellNamed.once t member

theorem concat (wellNamed : WellNamed tables)
    (free : ∀ u ∈ tables, sameName u.name t.name = false)
    (once : hasTwice (t.columns.map (·.1)) = false) : WellNamed (tables ++ [t]) where
  apart := by
    rw [List.pairwise_append]
    refine ⟨wellNamed.apart, List.pairwise_singleton _ _, fun u member last written => ?_⟩
    rw [List.mem_singleton.mp written]
    exact free u member
  once := by
    rw [List.forall_mem_append, List.forall_mem_singleton]
    exact ⟨wellNamed.once, once⟩

end WellNamed

end Database

/-- Tables and indexes, each in the order of their creation. -/
structure Database where
  tables : List Database.Table
  indexes : List Database.Index
  wellNamed : Database.WellNamed tables
deriving DecidableEq, Repr

namespace Database

/-- The database without tables. -/
def empty : Database := ⟨[], [], .nil⟩

/-- The table of the given name. -/
def table? (db : Database) (name : Text) : Option Table :=
  db.tables.find? fun t => sameName t.name name

/-! ## Creating -/

/-- The beginning that the database keeps for names of its own. -/
def reservedStart : Text := "sqlite_"

/-- The greatest number of columns of a table. -/
def maxColumns : Nat := 2000

/-- Why a table with the columns `before` cannot have those of the given names after them. -/
def columnRefusal? (table : Text) (before : List Text) : List Text → Option Refusal
  | [] => none
  | name :: rest =>
    if name.contains 0 then some (.unclosed (Statement.unclosed name))
    else if maxColumns ≤ before.length then some (.tooManyColumns table)
    else if before.any (sameName name) then some (.duplicateColumn name)
    else columnRefusal? table (before ++ [name]) rest

/-- Why a table cannot be created. The statement is read from its beginning, where the name stands
as `written`, so what is wrong first is what is refused. -/
def tableRefusal? (db : Database) (name written : Text) (columns : List Text) : Option Refusal :=
  if name.contains 0 then some (.unclosed (Statement.unclosed name))
  else if name.lower.startsWith reservedStart then some (.reservedName name)
  else if db.tables.any fun t => sameName t.name name then some (.tableExists written)
  else if db.indexes.any fun i => sameName i.name name then some (.indexExists name)
  else columnRefusal? name [] columns

section

variable {db : Database} {table name written : Text} {before columns : List Text}

theorem once_of_columnRefusal? (allowed : columnRefusal? table before columns = none) :
    hasTwice columns = false ∧ ∀ column ∈ columns, ∀ earlier ∈ before, sameName column earlier = false := by
  induction columns generalizing before with
  | nil => exact ⟨rfl, fun _ member => absurd member List.not_mem_nil⟩
  | cons column rest ih =>
      unfold columnRefusal? at allowed
      split at allowed
      · cases allowed
      · split at allowed
        · cases allowed
        · split at allowed
          · cases allowed
          · rename_i free
            obtain ⟨once, apart⟩ := ih allowed
            simp only [List.any_eq_true, not_exists, not_and, Bool.not_eq_true] at free
            refine ⟨?_, List.forall_mem_cons.mpr ⟨free, fun other later earlier member => ?_⟩⟩
            · rw [hasTwice, once, Bool.or_false, List.any_eq_false]
              intro other later
              rw [sameName_comm, apart other later column (by simp)]
              exact Bool.false_ne_true
            · exact apart other later earlier (List.mem_append_left _ member)

theorem free_of_tableRefusal? (allowed : db.tableRefusal? name written columns = none) :
    (∀ t ∈ db.tables, sameName t.name name = false) ∧ hasTwice columns = false := by
  unfold tableRefusal? at allowed
  split at allowed
  · cases allowed
  · split at allowed
    · cases allowed
    · split at allowed
      · cases allowed
      · rename_i free
        split at allowed
        · cases allowed
        · simp only [List.any_eq_true, not_exists, not_and, Bool.not_eq_true] at free
          exact ⟨free, (once_of_columnRefusal? allowed).1⟩

end

/-- The database with a new, empty table. In the statement its name stands as `written`. -/
def createTable (db : Database) (name written statement : Text) (columns : List (Text × Affinity)) :
    Except Refusal Database :=
  match allowed : db.tableRefusal? name written (columns.map (·.1)) with
  | some refusal => .error refusal
  | none => .ok {
      tables := db.tables ++ [⟨name, statement, columns, []⟩]
      indexes := db.indexes
      wellNamed :=
        db.wellNamed.concat (free_of_tableRefusal? allowed).1 (free_of_tableRefusal? allowed).2 }

/-- The database with an index. An index of the name stays as it is; a table of the name is in the
way. -/
def createIndex (db : Database) (index : Index) : Except Refusal Database :=
  if db.tables.any fun t => sameName t.name index.name then .error (.tableInWay index.name)
  else if db.indexes.any fun i => sameName i.name index.name then .ok db
  else .ok { db with indexes := db.indexes ++ [index] }

/-! ## Rows -/

/-- The cells of a row as the columns store them. -/
def storedRow (columns : List (Text × Affinity)) (cells : List Cell) : List Cell :=
  List.zipWith (fun column cell => cell.stored column.2) columns cells

/-- The database with other rows in the table of a name. -/
def changeRows (db : Database) (name : Text) (rows : Table → List (List Cell)) : Database where
  tables := db.tables.map fun t => if sameName t.name name then { t with rows := rows t } else t
  indexes := db.indexes
  wellNamed := db.wellNamed.map (fun t => by split <;> rfl) fun t => by split <;> rfl

/-- The database with rows added at the end of a table. -/
def insert (db : Database) (name : Text) (rows : List (List Cell)) : Database :=
  db.changeRows name fun t => t.rows ++ rows.map (storedRow t.columns)

/-- The database with a row added at the end of a table in place of the rows whose first cell is
the same. -/
def replace (db : Database) (name : Text) (cells : List Cell) : Database :=
  db.changeRows name fun t =>
    let row := storedRow t.columns cells
    t.rows.filter (fun r => r.head? ≠ row.head?) ++ [row]

end Database

end TableMachine
