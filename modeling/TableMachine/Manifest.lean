import TableMachine.Files
import TableMachine.Machine.State
import TableMachine.Path.Ascent
import TableMachine.Toml.Reader

/-! # Manifests

A manifest is a document that describes a project: its name, the program to run, the limits of the
machine and where to log. It is looked for in a directory and in those above it. A key belongs to a
field when it has the field's name or differs from it in case only; other keys are ignored, and a
value of another kind than its field's makes the whole document unreadable.
-/

namespace TableMachine

/-- What a manifest says. -/
structure Manifest where
  /-- The directory that holds it. -/
  directory : Text := []
  name : Text := []
  version : Text := []
  /-- The program to run, as it is written; empty for none. -/
  program : Text := []
  /-- The database to export to, as it is written; empty for none. -/
  target : Text := []
  config : Config := ⟨0, 0, 0, false⟩
  verbosity : Int := 0
  /-- The file to log to, as it is written; empty for none. -/
  log : Text := []
deriving DecidableEq, Repr

/-- Why a manifest was not loaded. -/
inductive ManifestError where
  | unreadable (path : Text) (failure : FileFailure)
  | malformed (path : Text)
  | negativeFrames (path : Text)
deriving DecidableEq, Repr

/-- The wording of a manifest that was not loaded. -/
def ManifestError.message : ManifestError → Text
  | unreadable path failure => Text.concat ["cannot read ", path, ": ", failure.message]
  | malformed path => Text.concat ["parse error in ", path, ": not a manifest"]
  | negativeFrames path => Text.concat [path, ": engine max-frames must not be negative"]

namespace Manifest

/-! ## Fields -/

/-- A name, and how a value of a document under it changes a manifest. A value of the wrong kind
changes none. -/
structure Field where
  name : Text
  set : Toml.Document → Toml.Value → Manifest → Option Manifest

/-- A field that holds a text. -/
def textField (name : Text) (set : Manifest → Text → Manifest) : Field where
  name := name
  set
    | _, .literal (.text t), m => some (set m t)
    | _, _, _ => none

/-- A field that holds an integer. -/
def integerField (name : Text) (set : Manifest → Int → Manifest) : Field where
  name := name
  set
    | _, .literal (.integer i), m => some (set m i)
    | _, _, _ => none

/-- A field that holds a truth value. -/
def boolField (name : Text) (set : Manifest → Bool → Manifest) : Field where
  name := name
  set
    | _, .literal (.bool b), m => some (set m b)
    | _, _, _ => none

/-- The field that a key belongs to. -/
def fieldOf? (fields : List Field) (key : Text) : Option Field :=
  (fields.find? (·.name = key)).orElse fun _ => fields.find? (·.name.folded = key.folded)

/-- The manifest after one entry. -/
def setEntry (doc : Toml.Document) (fields : List Field) (m : Manifest)
    (entry : Text × Toml.Value) : Option Manifest :=
  match fieldOf? fields entry.1 with
  | some field => field.set doc entry.2 m
  | none => some m

/-- The manifest after all entries. -/
def setEntries (doc : Toml.Document) (fields : List Field) (entries : Toml.Entries)
    (m : Manifest) : Option Manifest :=
  entries.foldlM (setEntry doc fields) m

/-- A field that holds a table of fields. -/
def tableField (name : Text) (fields : List Field) : Field where
  name := name
  set
    | doc, .table number, m => setEntries doc fields (doc.entries number) m
    | _, _, _ => none

/-- The fields about the project. -/
def projectFields : List Field := [
  textField "name" fun m t => { m with name := t },
  textField "version" fun m t => { m with version := t }]

/-- The fields about the run. -/
def runFields : List Field := [
  textField "program" fun m t => { m with program := t },
  textField "export" fun m t => { m with target := t }]

/-- A change of the configuration as a change of the manifest. -/
def onConfig {α : Type} (set : Config → α → Config) (m : Manifest) (x : α) : Manifest :=
  { m with config := set m.config x }

/-- The fields about the machine. -/
def engineFields : List Field := [
  integerField "stack-size" (onConfig fun c i => { c with stackSize := i }),
  integerField "frame-capacity" (onConfig fun c i => { c with frameCapacity := i }),
  integerField "max-frames" (onConfig fun c i => { c with maxFrames := i }),
  boolField "trace" (onConfig fun c b => { c with trace := b })]

/-- The fields about logging. -/
def logFields : List Field := [
  integerField "verbosity" fun m i => { m with verbosity := i },
  textField "file" fun m t => { m with log := t }]

/-- All fields. -/
def fields : List Field := [
  tableField "project" projectFields,
  tableField "run" runFields,
  tableField "engine" engineFields,
  tableField "log" logFields]

/-- The manifest of a text. -/
def parse? (t : Text) : Option Manifest := do
  let doc ← Toml.read? t
  setEntries doc fields doc.root {}

/-! ## Loading -/

/-- The configuration with the standard sizes in place of those that are not positive. -/
def withDefaults (c : Config) : Config :=
  { c with
    stackSize := if c.stackSize ≤ 0 then Config.standard.stackSize else c.stackSize
    frameCapacity :=
      if c.frameCapacity ≤ 0 then Config.standard.frameCapacity else c.frameCapacity }

/-- The name of the file that holds a manifest. -/
def fileName : Text := "datacode.toml"

/-- The manifest of a directory. -/
def load (files : Files) (directory : Text) : Except ManifestError Manifest :=
  let path := Path.join directory fileName
  match files.read path with
  | .error failure => .error (.unreadable path failure)
  | .ok content =>
    match parse? content with
    | none => .error (.malformed path)
    | some m =>
      if m.config.maxFrames < 0 then .error (.negativeFrames path)
      else .ok { m with
        directory := Path.absolute files.workingPath directory
        config := withDefaults m.config }

/-- Looks into a directory and into those above it, until one `holds`, which is then loaded. The root
is its own directory and ends the search. -/
def search {m : Type → Type} [Monad m] {α : Type} (holds : Text → m Bool) (load : Text → m α)
    (directory : Text) : m (Option α) := do
  if ← holds directory then
    return some (← load directory)
  else if Path.directory directory = directory then
    return none
  else
    search holds load (Path.directory directory)
termination_by Path.rank directory
decreasing_by exact Path.rank_directory_lt ‹_›

/-- Whether a manifest, or anything of its name, stands in a directory. -/
def stands (files : Files) (directory : Text) : Bool :=
  files.contains (Path.join directory fileName)

/-- The manifest of the nearest directory that has one: the given one or one above it. -/
def find (files : Files) (directory : Text) : Except ManifestError (Option Manifest) :=
  search (fun d => .ok (stands files d)) (load files) (Path.absolute files.workingPath directory)

/-! ## Paths -/

/-- A path as seen from the manifest's directory; an empty one stays empty. -/
def resolve (m : Manifest) (path : Text) : Text :=
  if path.isEmpty || Path.isAbsolute path then path else Path.join m.directory path

/-- The program to run, from the root; empty for none. -/
def programPath (m : Manifest) : Text := m.resolve m.program

/-- The database to export to, from the root; empty for none. -/
def targetPath (m : Manifest) : Text := m.resolve m.target

/-- The file to log to, from the root. -/
def logPath? (m : Manifest) : Option Text := if m.log.isEmpty then none else some (m.resolve m.log)

end Manifest

end TableMachine
