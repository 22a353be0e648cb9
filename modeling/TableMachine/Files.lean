import TableMachine.Path
import TableMachine.Database.Basic

/-! # A file system as a value

The files and directories that a run can see. Locations are component lists from the root; a path
is resolved one component at a time, and every component but the last has to be a directory, also
one that a double dot leaves again. A file holds bytes or a database.
-/

namespace TableMachine

/-- Why a file operation was refused. -/
inductive FileError where
  /-- Nothing is there. -/
  | missing
  /-- A directory stands where a file is needed. -/
  | isDirectory
  /-- A file stands where a directory is needed. -/
  | notDirectory
  /-- A directory that still holds entries. -/
  | notEmpty
  /-- A path that names no place, or a directory by a dot. -/
  | invalid
  /-- A component longer than a file system stores. -/
  | nameTooLong
  /-- The root itself. -/
  | busy
deriving DecidableEq, Repr

namespace FileError

/-- The wording of the reason. -/
def message : FileError → Text
  | missing => "no such file or directory"
  | isDirectory => "is a directory"
  | notDirectory => "not a directory"
  | notEmpty => "directory not empty"
  | invalid => "invalid argument"
  | nameTooLong => "file name too long"
  | busy => "device or resource busy"

end FileError

/-- An operation on a path that was refused. -/
structure FileFailure where
  /-- What was tried. -/
  action : Text
  /-- On which path, as it was given. -/
  path : Text
  /-- Why it failed. -/
  reason : FileError
deriving DecidableEq, Repr

/-- The wording of a refused operation. -/
def FileFailure.message (f : FileFailure) : Text :=
  Text.concat [f.action, " ", f.path, ": ", f.reason.message]

/-- What stands at a location. -/
inductive Entry where
  /-- A directory; its entries are the locations below it. -/
  | directory
  /-- A file and its bytes. -/
  | file (content : Text)
  /-- A file that holds a database. -/
  | database (content : Database)
deriving DecidableEq, Repr

/-- A file system seen from a working directory. -/
structure Files where
  /-- The working directory, as components from the root. -/
  working : List Text
  /-- What stands where; the root is always a directory. -/
  entries : List (List Text × Entry)

namespace Files

/-- An empty file system but for the working directory and those above it. -/
def empty (working : List Text) : Files where
  working := working
  entries := (List.range working.length).map fun n => (working.take (n + 1), .directory)

/-- What stands at a location. -/
def at? (files : Files) (location : List Text) : Option (Entry) :=
  if location.isEmpty then some .directory else files.entries.lookup location

/-- The file system with `entry` at `location`. -/
def put (files : Files) (location : List Text) (entry : Entry) : Files :=
  { files with entries := files.entries.filter (·.1 ≠ location) ++ [(location, entry)] }

/-- The file system without anything at `location`. -/
def erase (files : Files) (location : List Text) : Files :=
  { files with entries := files.entries.filter (·.1 ≠ location) }

/-- Whether anything stands directly or further below `location`. -/
def hasBelow (files : Files) (location : List Text) : Bool :=
  files.entries.any fun (place, _) => location.isPrefixOf place && place ≠ location

/-- The working directory as a path. -/
def workingPath (files : Files) : Text := Path.assemble true files.working

/-- The longest component a file system stores, in bytes. -/
def maxName : Nat := 255

/-- One component further: the location so far has to be a directory. -/
def descend (files : Files) (location : List Text) (component : Text) :
    Except FileError (List Text) :=
  match files.at? location with
  | none => .error .missing
  | some .directory =>
    if component = Path.here then .ok location
    else if component = Path.up then .ok location.dropLast
    else if maxName < component.length then .error .nameTooLong
    else .ok (location ++ [component])
  | some _ => .error .notDirectory

/-- Whether the path asks for a directory by its last byte. -/
def asksDirectory (path : Text) : Bool := path.getLast? == some Path.slash

/-- The location that a path names, whether or not anything stands there. -/
def resolve (files : Files) (path : Text) : Except FileError (List Text) :=
  if path.isEmpty then .error .missing
  else if path.contains 0 then .error .invalid
  else
    let start := if Path.isAbsolute path then [] else files.working
    (Path.components path).foldlM files.descend start

/-- What stands at a path. A slash at its end asks for a directory. -/
def stat (files : Files) (path : Text) : Except FileError (Entry) := do
  let location ← files.resolve path
  match files.at? location with
  | none => .error .missing
  | some .directory => .ok .directory
  | some entry => if asksDirectory path then .error .notDirectory else .ok entry

/-- Whether anything stands at a path. -/
def contains (files : Files) (path : Text) : Bool := (files.stat path).isOk

/-- Whether a directory stands at a path. -/
def isDirectory (files : Files) (path : Text) : Bool :=
  match files.stat path with
  | .ok .directory => true
  | _ => false

/-- Whether a file stands at a path. -/
def isFile (files : Files) (path : Text) : Bool :=
  match files.stat path with
  | .ok .directory => false
  | .ok _ => true
  | .error _ => false

/-- The bytes that every database file begins with. -/
def databaseMark : Text := Text.ofString "SQLite format 3" ++ [0]

/-- The bytes of a file; of a database only its mark. -/
def read (files : Files) (path : Text) : Except FileFailure Text :=
  match files.stat path with
  | .error reason => .error ⟨"open", path, reason⟩
  | .ok .directory => .error ⟨"read", path, .isDirectory⟩
  | .ok (.file content) => .ok content
  | .ok (.database _) => .ok databaseMark

/-- The location at which a file of the given path can be created or replaced. -/
def writable (files : Files) (path : Text) : Except FileError (List Text) := do
  let location ← files.resolve path
  match files.at? location with
  | some .directory => .error .isDirectory
  | some _ => if asksDirectory path then .error .notDirectory else .ok location
  | none =>
    if asksDirectory path then .error .isDirectory
    else match files.at? location.dropLast with
      | some .directory => .ok location
      | some _ => .error .notDirectory
      | none => .error .missing

/-- The file system after writing a file. -/
def write (files : Files) (path content : Text) : Except FileFailure Files :=
  match files.writable path with
  | .error reason => .error ⟨"open", path, reason⟩
  | .ok location => .ok (files.put location (.file content))

/-- The file system after removing a file or an empty directory. -/
def remove (files : Files) (path : Text) : Except FileFailure Files :=
  let refused (reason : FileError) : Except FileFailure Files := .error ⟨"remove", path, reason⟩
  match files.resolve path with
  | .error reason => refused reason
  | .ok location =>
    match files.at? location with
    | none => refused .missing
    | some .directory =>
      if (Path.components path).getLast? = some Path.here then refused .invalid
      else if location.isEmpty then refused .busy
      else if files.hasBelow location then refused .notEmpty
      else .ok (files.erase location)
    | some _ => if asksDirectory path then refused .notDirectory else .ok (files.erase location)

/-- The file system with a directory at the path and at every place above it. -/
def makeDirectories (files : Files) (path : Text) : Files :=
  let start := if Path.isAbsolute path then [] else files.working
  ((Path.components path).foldl (fun (state : Files × List Text) component =>
    let (files, location) := state
    if component = Path.here then (files, location)
    else if component = Path.up then (files, location.dropLast)
    else
      let next := location ++ [component]
      match files.at? next with
      | none => (files.put next .directory, next)
      | some _ => (files, next)) (files, start)).1

end Files

end TableMachine
