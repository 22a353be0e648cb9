import TableMachine.Files
import TableMachine.Wire.Decode
import TableMachine.Wire.Encode
import TableMachine.Wire.Reader

/-! # Artifacts

An artifact is a stored program: four bytes that mark it as one, the version of the format, and one
data item. Loading checks them in this order and then that no part of the program is missing; the
name maps of a loaded program are always present.
-/

namespace TableMachine

/-- Why an artifact could not be made or loaded. -/
inductive ArtifactError where
  /-- Fewer bytes than the mark and the version take. -/
  | tooShort (size : Nat)
  | badMark
  | badVersion (version : Nat)
  /-- The bytes after the version are no program. -/
  | malformed
  | noMain
  | noChunk (position : Nat)
deriving DecidableEq, Repr

namespace Artifact

/-- The bytes that every artifact begins with. -/
def mark : Text := [0x44, 0x43, 0x42, 0x43]

/-- The bytes of a version number, the low one first. -/
def versionBytes (v : UInt16) : Text := [(v.toNat % 256).toUInt8, (v.toNat / 256).toUInt8]

/-- The bytes of a program. -/
def store (p : Program) : Except ArtifactError Text :=
  match p.main with
  | none => .error .noMain
  | some _ => .ok (mark ++ versionBytes Chunk.currentVersion ++ (Wire.programItem p).write)

/-- A chunk with both name maps present. -/
def withNames (c : Chunk) : Chunk :=
  { c with globals := some c.globalNames, explicit := some c.explicitNames }

/-- A function whose chunk is present and has both name maps. -/
def completeFunction? (f : Option Function) : Option Function := do
  let f ← f
  let chunk ← f.chunk
  some { f with chunk := some (withNames chunk) }

/-- The functions, complete, or the position of the first one that is not. -/
def completeFunctions (position : Nat) :
    List (Option Function) → Except ArtifactError (List (Option Function))
  | [] => .ok []
  | f :: rest =>
    match completeFunction? f with
    | none => .error (.noChunk position)
    | some f => (completeFunctions (position + 1) rest).map (some f :: ·)

/-- A program without missing parts. -/
def complete (p : Program) : Except ArtifactError Program :=
  match p.main with
  | none => .error .noMain
  | some main => do
    let functions ← completeFunctions 0 p.functions.toList
    .ok ⟨some (withNames main), functions.toArray⟩

/-- The program of an artifact. -/
def load (data : Text) : Except ArtifactError Program :=
  if data.length < 6 then .error (.tooShort data.length)
  else if data.take 4 ≠ mark then .error .badMark
  else
    let version := (data.getD 4 0).toNat + 256 * (data.getD 5 0).toNat
    if version ≠ Chunk.currentVersion.toNat then .error (.badVersion version)
    else match (Wire.read? (data.drop 6)).bind Wire.program? with
      | none => .error .malformed
      | some p => complete p

end Artifact

/-- The wording of a refused artifact. -/
def ArtifactError.message : ArtifactError → Text
  | tooShort size => Text.concat ["bytecode: data too short (", Text.ofNat size, " bytes)"]
  | badMark => "bytecode: invalid magic number"
  | badVersion v =>
    Text.concat ["bytecode: unsupported version ", Text.ofNat v, " (expected ",
      Text.ofNat Chunk.currentVersion.toNat, ")"]
  | malformed => "bytecode: unmarshal program: not a stored program"
  | noMain => "bytecode: program has no main chunk"
  | noChunk i => Text.concat ["bytecode: function ", Text.ofNat i, " has no chunk"]

namespace Artifact

/-- The program of a file, or the wording of why there is none. -/
def readFile (files : Files) (path : Text) : Except Text Program :=
  match files.read path with
  | .error f => .error (Text.concat ["cannot read ", path, ": ", f.message])
  | .ok data =>
    match load data with
    | .error e => .error (Text.concat [path, ": ", e.message])
    | .ok p => .ok p

/-- The file system with a program stored in a file, or the wording of why it was not. -/
def writeFile (files : Files) (path : Text) (p : Program) : Except Text Files :=
  match store p with
  | .error e => .error e.message
  | .ok data =>
    match files.write path data with
    | .error f => .error (Text.concat ["cannot write ", path, ": ", f.message])
    | .ok files => .ok files

end Artifact

end TableMachine
