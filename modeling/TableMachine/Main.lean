import Std.Time.DateTime
import TableMachine.Command.Demand
import TableMachine.Database.Script

/-! # The command line

The shell around the command: it brings the files the command may read, hands the arguments over,
and does to the host's files what the command did to these. A database is written as the script that
rebuilds it; scripts are not read back.
-/

namespace TableMachine.Shell

/-- A path as the host names it; none for bytes that are no valid text. -/
def hostPath? (path : Text) : Option String := String.fromUTF8? ⟨path.toArray⟩

/-- The files with what stands at a path of the host. -/
def fetch (files : Files) (path : Text) : IO Files := do
  let some name := hostPath? path | return files
  try
    let content ← IO.FS.readBinFile name
    let files := files.makeDirectories (Path.directory path)
    return (files.write path content.data.toList).toOption.getD files
  catch
    | .inappropriateType .. => return files.makeDirectories path
    | _ => return files

/-- The files that the command may read. Manifests name the program and the program names others,
so there are three rounds. -/
def gather (engine : Engine) (arguments : List Text) : IO Files := do
  let directory ← IO.currentDir
  let mut files := Files.empty (Path.components (Text.ofString directory.toString))
  for _ in [1, 2, 3] do
    for path in Command.demand engine files arguments do
      files ← fetch files path
  return files

/-- Two decimal places. -/
def twoPlaces (n : Int) : Text :=
  if n < 10 then 0x30 :: Text.ofInt n else Text.ofInt n

/-- The present time, to the second. -/
def now : IO Text := do
  let instant ← Std.Time.Timestamp.now
  let date := Std.Time.PlainDate.ofEpochDay instant.toDaysSinceUnixEpoch
  let seconds := instant.toSecondsSinceUnixEpoch.val % 86400
  return Text.concat [Text.ofInt date.year, "-", twoPlaces date.month.val, "-",
    twoPlaces date.day.val, "T", twoPlaces (seconds / 3600), ":",
    twoPlaces (seconds / 60 % 60), ":", twoPlaces (seconds % 60), "Z"]

/-- Does to the host's files what was done to those that were brought. -/
def leave (before after : Files) : IO Unit := do
  for (location, entry) in before.entries do
    match entry, after.at? location, hostPath? (Path.assemble true location) with
    | .directory, none, some name => IO.FS.removeDir name
    | _, none, some name => IO.FS.removeFile name
    | _, _, _ => pure ()
  for (location, entry) in after.entries do
    unless before.at? location = some entry do
      match entry, hostPath? (Path.assemble true location) with
      | .database db, some name => IO.FS.writeBinFile name ⟨db.script.toArray⟩
      | .file content, some name => IO.FS.writeBinFile name ⟨content.toArray⟩
      | _, _ => pure ()

/-- The greatest number of steps of a run. -/
def maxSteps : Nat := pow2 62

end TableMachine.Shell

open TableMachine in
/-- Runs the command and exits with its code. -/
def main (arguments : List String) : IO UInt32 := do
  let arguments := arguments.map Text.ofString
  let files ← Shell.gather .standard arguments
  match Command.execute ⟨.standard, files, ← Shell.now, Shell.maxSteps⟩ arguments with
  | none =>
    (← IO.getStderr).putStrLn "Error: the program is malformed"
    return 2
  | some answer =>
    (← IO.getStdout).write ⟨answer.stdout.toArray⟩
    (← IO.getStderr).write ⟨answer.stderr.toArray⟩
    Shell.leave files answer.files
    return answer.exit.toUInt32
