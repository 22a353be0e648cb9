import TableMachine.Database.Cell

/-! # Statements

The text of the statements that make up a database. A name is written between double quotes and a
quote inside it is written twice, so no name can end its own quotation.
-/

namespace TableMachine.Statement

/-- The double quote. -/
def quote : UInt8 := 0x22

/-- A name between quotes. -/
def quoted (name : Text) : Text :=
  quote :: Text.replaceByte quote [quote, quote] name ++ [quote]

/-- What a reader sees of a quoted name with a zero byte, which ends the statement. -/
def unclosed (name : Text) : Text :=
  quote :: Text.replaceByte quote [quote, quote] (name.takeWhile (· != 0))

/-- Items between parentheses. -/
def grouped (items : List Text) : Text := Text.concat ["(", Text.joinWith ", " items, ")"]

/-- The statement that creates a table. -/
def createTable (name : Text) (columns : List (Text × Affinity)) : Text :=
  Text.concat ["CREATE TABLE ", quoted name, " ",
    grouped (columns.map fun (column, affinity) =>
      Text.concat [quoted column, " ", affinity.typeName])]

/-- The statement that adds a row; `values` are written as they are. -/
def insert (name : Text) (columns values : List Text) : Text :=
  Text.concat ["INSERT INTO ", quoted name, " ", grouped (columns.map quoted), " VALUES ",
    grouped values]

/-- A place for a value that is supplied later. -/
def mark : Text := "?"

/-- The statement that adds rows whose values are supplied later. -/
def prepared (name : Text) (columns : List Text) : Text :=
  insert name columns (columns.map fun _ => mark)

/-- The statement that creates an index on one column. -/
def createIndex (name table column : Text) : Text :=
  Text.concat ["CREATE INDEX ", quoted name, " ON ", quoted table, " ", grouped [quoted column]]

/-- The statement that creates a table of plain names, one column to a line. -/
def declare (name : Text) (columns : List Text) : Text :=
  Text.concat ["CREATE TABLE ", name, " (\n\t\t", Text.joinWith ",\n\t\t" columns, "\n\t)"]

end TableMachine.Statement
