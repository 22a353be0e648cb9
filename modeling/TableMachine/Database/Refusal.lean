import TableMachine.Database.Statement

/-! # Refusals

Why a database refused a statement or could not be opened, each with the words it says so in. An
error of a statement is announced as such and ends with its number.
-/

namespace TableMachine

/-- What a database refused. -/
inductive Refusal where
  /-- A quotation that the statement does not close; `token` is what there is of it. -/
  | unclosed (token : Text)
  /-- A table under a name that the database keeps for itself. -/
  | reservedName (name : Text)
  /-- A second table of one name; `written` is the name as the statement has it. -/
  | tableExists (written : Text)
  /-- A table under the name of an index. -/
  | indexExists (name : Text)
  /-- An index under the name of a table. -/
  | tableInWay (name : Text)
  /-- More columns than a table can have. -/
  | tooManyColumns (table : Text)
  /-- A second column of one name. -/
  | duplicateColumn (name : Text)
  /-- A file that holds something else. -/
  | notDatabase
  /-- No file can be opened under the name. -/
  | noFile
  /-- A name that could not be made out. -/
  | badName (words : Text)
deriving DecidableEq, Repr

namespace Refusal

/-- The announcement and the number of an error in a statement. -/
def statementError (words : List Text) : Text :=
  Text.concat ["SQL logic error: ", Text.concat words, " (1)"]

/-- The wording of a refusal. -/
def message : Refusal → Text
  | unclosed token =>
    statementError ["unrecognized token: ", [Statement.quote], token, [Statement.quote]]
  | reservedName name => statementError ["object name reserved for internal use: ", name]
  | tableExists written => statementError ["table ", written, " already exists"]
  | indexExists name => statementError ["there is already an index named ", name]
  | tableInWay name => statementError ["there is already a table named ", name]
  | tooManyColumns table => statementError ["too many columns on ", table]
  | duplicateColumn name => statementError ["duplicate column name: ", name]
  | notDatabase => "file is not a database (26)"
  | noFile => "unable to open database file: out of memory (14)"
  | badName words => statementError [words]

end Refusal

end TableMachine
