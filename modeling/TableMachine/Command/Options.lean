import TableMachine.Text.Quoted

/-! # Options of the command

An argument with one or two hyphens is an option. A switch is on when it stands alone and may be
given a truth value after an equals sign; a setting takes its value from after the equals sign or
from the next argument. The first argument that is no option, or the first after two bare hyphens,
names the program.
-/

namespace TableMachine.Command

/-- What the command was asked to do. -/
structure Options where
  verbose : Bool := false
  /-- Whether the instructions are listed before the run. -/
  listing : Bool := false
  /-- Whether the named globals are shown after the run. -/
  globals : Bool := false
  /-- The database to export to; empty for the manifest's choice. -/
  target : Text := []
  /-- Where the search for a manifest starts. -/
  directory : Text := Text.ofString "."
  /-- The program to run; empty for the manifest's choice. -/
  program : Text := []
deriving DecidableEq, Repr

/-- How an option changes what is asked. -/
inductive Effect where
  | switch (set : Options → Bool → Options)
  /-- A setting, with the value it has when it is not given. -/
  | setting (set : Options → Text → Options) (initial : Text)

/-- An option that the command knows. -/
structure Known where
  name : Text
  help : Text
  effect : Effect

/-- The options in the order of their names. -/
def known : List Known := [
  ⟨"config", "Directory to search for datacode.toml",
    .setting (fun o t => { o with directory := t }) ({} : Options).directory⟩,
  ⟨"disasm", "Print the program disassembly before running",
    .switch fun o b => { o with listing := b }⟩,
  ⟨"export", "Export globals to an SQLite database",
    .setting (fun o t => { o with target := t }) ({} : Options).target⟩,
  ⟨"globals", "Print the named globals after running",
    .switch fun o b => { o with globals := b }⟩,
  ⟨"v", "Verbose output (debug logging)",
    .switch fun o b => { o with verbose := b }⟩]

/-! ## Usage -/

/-- The option and its help; the help of a long option has a line of its own. -/
def Known.usage (k : Known) : Text :=
  let (kind, initial) : Text × Text :=
    match k.effect with
    | .switch _ => ([], [])
    | .setting _ initial =>
      (" string", if initial.isEmpty then [] else Text.concat [" (default ", initial.quoted, ")"])
  let head := Text.concat ["  -", k.name, kind]
  Text.concat [head, if head.length ≤ 4 then "\t" else "\n    \t", k.help, initial, "\n"]

/-- How the command is used. -/
def usage : Text :=
  Text.concat [
    "Usage: datacode [options] program.dcb\n\n",
    "Runs a compiled DataCode program.\n\n",
    "Options:\n",
    Text.concat (known.map Known.usage),
    "\nExamples:\n",
    "  datacode build/main.dcb                 # Run a program\n",
    "  datacode -disasm build/main.dcb         # Show bytecode, then run\n",
    "  datacode -export out.db build/main.dcb  # Run and export globals\n"]

/-! ## Arguments -/

/-- Why the arguments were not understood. -/
inductive UsageError where
  /-- They ask for help. -/
  | help
  | badSyntax (argument : Text)
  | unknown (name : Text)
  | noValue (name : Text)
  | notBool (value name : Text)
deriving DecidableEq, Repr

/-- The wording in front of the usage. -/
def UsageError.message : UsageError → Text
  | help => []
  | badSyntax argument => Text.concat ["bad flag syntax: ", argument, "\n"]
  | unknown name => Text.concat ["flag provided but not defined: -", name, "\n"]
  | noValue name => Text.concat ["flag needs an argument: -", name, "\n"]
  | notBool value name =>
    Text.concat ["invalid boolean value ", value.quoted, " for -", name, ": parse error\n"]

/-- The exit code of a command that was not understood. -/
def UsageError.exit : UsageError → Nat
  | help => 0
  | _ => 2

/-- What an argument is. -/
inductive Argument where
  /-- The program. -/
  | operand
  /-- The end of the options. -/
  | stop
  /-- An option and the value after its equals sign. -/
  | option (name : Text) (value : Option Text)
  /-- Hyphens that no name follows. -/
  | malformed
deriving DecidableEq, Repr

/-- A name and what follows its first equals sign. -/
def splitValue (t : Text) : Text × Option Text :=
  let name := t.takeWhile (· != 0x3D)
  (name, if name.length < t.length then some (t.drop (name.length + 1)) else none)

/-- What an option is after its hyphens. -/
def optionOf (t : Text) : Argument :=
  match t with
  | [] => .malformed
  | b :: _ =>
    if b = 0x2D || b = 0x3D then .malformed
    else .option (splitValue t).1 (splitValue t).2

/-- What an argument is. -/
def classify (argument : Text) : Argument :=
  match argument with
  | [0x2D, 0x2D] => .stop
  | 0x2D :: 0x2D :: rest => optionOf rest
  | 0x2D :: b :: rest => optionOf (b :: rest)
  | _ => .operand

/-- A truth value as a switch takes it. -/
def bool? (t : Text) : Option Bool :=
  if [("1" : Text), "t", "T", "true", "TRUE", "True"].contains t then some true
  else if [("0" : Text), "f", "F", "false", "FALSE", "False"].contains t then some false
  else none

/-- The known option of a name. -/
def find? (name : Text) : Except UsageError Known :=
  match known.find? (·.name = name) with
  | some k => .ok k
  | none =>
    if name = Text.ofString "help" || name = Text.ofString "h" then .error .help
    else .error (.unknown name)

/-- The options that the arguments ask for, added to those before them. -/
def parseFrom (o : Options) : List Text → Except UsageError Options
  | [] => .ok o
  | argument :: rest =>
    match classify argument with
    | .operand => .ok { o with program := argument }
    | .stop => .ok { o with program := rest.headD [] }
    | .malformed => .error (.badSyntax argument)
    | .option name value =>
      match find? name with
      | .error e => .error e
      | .ok k =>
        match k.effect, value, rest with
        | .switch set, none, rest => parseFrom (set o true) rest
        | .switch set, some value, rest =>
          match bool? value with
          | some b => parseFrom (set o b) rest
          | none => .error (.notBool value name)
        | .setting set _, some value, rest => parseFrom (set o value) rest
        | .setting set _, none, value :: rest => parseFrom (set o value) rest
        | .setting _ _, none, [] => .error (.noValue name)

/-- The options that the arguments ask for. -/
def parse (arguments : List Text) : Except UsageError Options := parseFrom {} arguments

end TableMachine.Command
