import TableMachine.Database.Basic

/-! # Scripts

A database as the statements that rebuild it, one to a line: every table, then its rows, then the
indexes.
-/

namespace TableMachine

/-- The apostrophe. -/
def Statement.apostrophe : UInt8 := 0x27

/-- A cell as it is written in a statement. -/
def Statement.literal : Cell → Text
  | .null => "NULL"
  | .integer i => Text.ofInt i
  | .real x =>
    let sign : Text := if x.isNegative then [0x2D] else []
    -- No number is as large as this one, so it reads as infinite.
    if x.isInfinite then sign ++ Text.ofString "9e999"
    else if x.isZero then Text.ofString "0.0"
    else sign ++ (Decimal.shortest x).scientific
  | .text t =>
    apostrophe :: Text.replaceByte apostrophe [apostrophe, apostrophe] t ++ [apostrophe]

namespace Database

/-- The statements that rebuild a table. -/
def Table.statements (t : Table) : List Text :=
  t.statement :: t.rows.map fun row =>
    Statement.insert t.name (t.columns.map (·.1)) (row.map Statement.literal)

/-- The statements that rebuild the database. -/
def statements (db : Database) : List Text :=
  db.tables.flatMap (·.statements) ++ db.indexes.map (·.statement)

/-- The statements that rebuild the database, each with its end. -/
def script (db : Database) : Text :=
  Text.concat (db.statements.map fun statement => Text.concat [statement, ";\n"])

end Database

end TableMachine
