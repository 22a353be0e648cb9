import TableMachine.Database.Basic
import TableMachine.Path

/-! # Engines

Databases are kept by an engine. What a name opens there, and what database the bytes of a file hold,
is for the engine to say: an export takes it as a parameter, and asks no more of it than that an
empty file is an empty database.

`Engine.standard` reads names as they are mostly read. It knows no stored form of a database, so it
refuses every file that is not empty.
-/

namespace TableMachine

/-- What a name opens. -/
inductive Opening where
  /-- A new database in memory. -/
  | memory
  /-- The database in the file of a name. -/
  | file (name : Text)
deriving DecidableEq, Repr

/-- A keeper of databases. -/
structure Engine where
  /-- What a name opens. -/
  opens : Text → Except Refusal Opening
  /-- The database in a file of the given bytes. -/
  reads : Text → Except Refusal Database
  reads_nil : reads [] = .ok .empty

namespace Engine

/-! ## Names -/

/-- The byte before the parameters of a name. -/
def questionMark : UInt8 := 0x3F

/-- What a name without parameters opens. -/
def openPlain (name : Text) : Opening :=
  if name.isEmpty || name = ":memory:" then .memory else .file name

/-- The bytes that escapes stand for. A zero byte ends the text. -/
def unescaped : Text → Text
  | 0x25 :: a :: b :: rest =>
    match Text.hexDigit? a, Text.hexDigit? b with
    | some high, some low =>
      if high = 0 ∧ low = 0 then [] else (16 * high + low).toUInt8 :: unescaped rest
    | _, _ => 0x25 :: unescaped (a :: b :: rest)
  | b :: rest => b :: unescaped rest
  | [] => []

/-- What an address opens, given without its scheme. Its host has to be this one, and of its
parameters only the mode that asks for memory counts. -/
def openAddress (address : Text) : Except Refusal Opening :=
  let (host, rest) : Text × Text :=
    if address.startsWith "//" then (address.drop 2).span (· != Path.slash) else ([], address)
  if host ≠ [] ∧ host ≠ "localhost" then
    .error (.badName (Text.concat ["invalid uri authority: ", host]))
  else
    let (path, parameters) := (rest.takeWhile (· != 0x23)).span (· != questionMark)
    if (Text.splitOn 0x26 (parameters.drop 1)).contains "mode=memory" then .ok .memory
    else .ok (openPlain (unescaped path))

/-- The beginning of an address. -/
def scheme : Text := "file:"

/-- What a name opens. A question mark that is not its first byte ends the name, unless it is an
address. -/
def openName (name : Text) : Except Refusal Opening :=
  if name.startsWith scheme then openAddress (name.drop scheme.length)
  else match name with
    | [] => .ok .memory
    | b :: rest => .ok (openPlain (b :: rest.takeWhile (· != questionMark)))

/-- An engine that opens names so, and no file but an empty one. -/
def standard : Engine where
  opens := openName
  reads content := if content.isEmpty then .ok .empty else .error .notDatabase
  reads_nil := rfl

end Engine

end TableMachine
