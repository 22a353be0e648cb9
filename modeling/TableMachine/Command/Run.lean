import TableMachine.Code.Listing
import TableMachine.Command.Options
import TableMachine.Export
import TableMachine.Machine.Run
import TableMachine.Manifest
import TableMachine.Native.Builtin
import TableMachine.Wire.Artifact

/-! # The command

The command looks for a manifest, loads a program, runs it on a fresh machine with the builtin
functions, and exports the globals where it is asked to. Options win over the manifest.
-/

namespace TableMachine.Command

/-- What the command leaves behind. -/
structure Answer where
  exit : Nat
  stdout : Text
  stderr : Text
  files : Files

/-- A message on a line of its own. -/
def errorLine (message : Text) : Text := Text.concat ["Error: ", message, "\n"]

/-- What surrounds the command and bounds its run. -/
structure Surroundings where
  /-- The keeper of the databases that are exported to. -/
  engine : Engine
  files : Files
  /-- The time of an export. -/
  stamp : Text
  /-- The greatest number of steps. -/
  fuel : Nat

/-- The options with the manifest's choices where they make none. -/
def complete (o : Options) (m : Manifest) : Options :=
  { o with
    program := if o.program.isEmpty then m.programPath else o.program
    target := if o.target.isEmpty then m.targetPath else o.target }

/-- What a finished run shows: its result unless it is null, and the globals if asked for. -/
def shown (o : Options) (v : Value) (m : Machine) : Text :=
  let result : Text := if v = .null then [] else v.render m.heap ++ Text.ofString "\n"
  let globals : Text := if o.globals then m.snapshot.text m.heap else []
  result ++ globals

/-- The end of a command whose run finished with a value. -/
def finish (s : Surroundings) (o : Options) (before : Text) (v : Value) (m : Machine) : Answer :=
  let stdout := before ++ m.host.output.written.toList ++ shown o v m
  if o.target.isEmpty then ⟨0, stdout, [], m.host.files⟩
  else
    match Export.save s.engine m.host.files o.target s.stamp m.heap (some m.snapshot) with
    | (none, files) => ⟨0, stdout, [], files⟩
    | (some e, files) =>
      ⟨1, stdout, errorLine (Text.concat ["export failed: ", e.message]), files⟩

/-- Runs a loaded program. There is no answer when the machine cannot be made or the program breaks
it. -/
def runProgram (s : Surroundings) (o : Options) (config : Config) (p : Program) :
    Option Answer := do
  let listing ← if o.listing then p.listing? else some []
  if !config.isFeasible then none
  else
    let setup : Setup := ⟨config, Native.builtins.toArray, ⟨0, p⟩⟩
    let (result, m) := (Machine.new { heap := {}, files := s.files }).run setup s.fuel
    let failed (stderr : Text) : Option Answer :=
      some ⟨1, listing ++ m.host.output.written.toList, stderr, m.host.files⟩
    match result with
    | .value v => some (finish s o listing v m)
    | .fault f => failed (Text.concat ["Error: ", f.traceText])
    | .noMain => failed (errorLine Result.noMainMessage)
    | .broken | .unfinished => none

/-- Runs the command with the given options. -/
def run (s : Surroundings) (o : Options) : Option Answer :=
  match Manifest.find s.files o.directory with
  | .error e => some ⟨1, [], errorLine e.message, s.files⟩
  | .ok manifest =>
    let o := (manifest.map (complete o)).getD o
    let config := (manifest.map (·.config)).getD .standard
    if o.program.isEmpty then
      some ⟨2, [], errorLine "no program given and no [run] program in datacode.toml", s.files⟩
    else
      match Artifact.readFile s.files o.program with
      | .error message => some ⟨1, [], errorLine message, s.files⟩
      | .ok p => runProgram s o config p

/-- Runs the command with the given arguments. -/
def execute (s : Surroundings) (arguments : List Text) : Option Answer :=
  match parse arguments with
  | .error e => some ⟨e.exit, [], e.message ++ usage, s.files⟩
  | .ok o => run s o

end TableMachine.Command
