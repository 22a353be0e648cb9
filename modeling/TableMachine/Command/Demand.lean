import TableMachine.Command.Run

/-! # What the command may read

The command runs on a file system that is a value, so whoever runs it has to bring the files it may
read. Which these are depends on files brought before: a manifest names the program, and the texts
of a program are the paths that it can name without building them. An export may read what stands
at its target and what the engine opens for it.
-/

namespace TableMachine

/-- The texts among a chunk's constants. -/
def Chunk.texts (c : Chunk) : List Text := (c.constants.getD #[]).toList.map (·.text)

/-- The texts among a program's constants. -/
def Program.texts (p : Program) : List Text :=
  let functions := p.functions.toList.filterMap fun f => f.bind (·.chunk)
  (p.main.toList ++ functions).flatMap Chunk.texts

namespace Command

/-- The places where the search for a manifest looks. -/
def manifestPaths (files : Files) (o : Options) : List Text :=
  (Path.ancestors (Path.absolute files.workingPath o.directory)).map fun directory =>
    Path.join directory Manifest.fileName

/-- The options with the choices of the manifest that is found. -/
def completed (files : Files) (o : Options) : Options :=
  match Manifest.find files o.directory with
  | .ok (some m) => complete o m
  | _ => o

/-- The paths that a run of a program may read. -/
def programReads (files : Files) (path : Text) : List Text :=
  match Artifact.readFile files path with
  | .ok p => p.texts
  | .error _ => []

/-- The paths that an export may read. -/
def targetReads (engine : Engine) (target : Text) : List Text :=
  match engine.opens target with
  | .ok (.file name) => [target, name]
  | _ => [target]

/-- The paths that the command may read, as far as the files brought so far tell. -/
def demand (engine : Engine) (files : Files) (arguments : List Text) : List Text :=
  match parse arguments with
  | .error _ => []
  | .ok o =>
    let completed := completed files o
    (manifestPaths files o ++ completed.program :: programReads files completed.program
      ++ targetReads engine completed.target).filter (!·.isEmpty)

end Command

end TableMachine
