import TableMachine.Code.Program

/-! # Listings

A readable form of chunks and programs: the constants, global names and try regions in use, then one
line for every instruction. A listing exists for any code bytes; it does not exist where a clause
names its error type by a negative position other than `noIndex`, or where a program has holes.
-/

namespace TableMachine

namespace Chunk

/-- The text and the length of what stands at an offset. Before the code there is nothing. -/
def listInstruction? (c : Chunk) (offset : Int) : Option (Text × Nat) :=
  if offset < 0 then none
  else
    let at_ := offset.toNat
    let code := c.code.entries
    match code[at_]? with
    | none => some ("<end>", 1)
    | some byte =>
      match Opcode.ofByte? byte with
      | none => some (Opcode.nameOfByte byte, 1)
      | some op =>
        match c.instruction? at_ with
        | none => some (Text.concat [op.name, " <truncated>"], code.size - at_)
        | some i => some (describe op i.operand at_, op.length)
where
  /-- An instruction with its operand and what the operand refers to. -/
  describe (op : Opcode) (operand : Int) (at_ : Nat) : Text :=
    let plain := Text.concat [op.name, " ", Text.ofInt operand]
    match op with
    | .constant =>
      match c.constants.entries[operand.toNat]? with
      | some k => Text.concat [plain, " ; ", k.listing]
      | none => Text.concat [plain, " ; <invalid>"]
    | .loadGlobal | .storeGlobal =>
      match c.globalNames.get? operand with
      | some name => Text.concat [plain, " ; ", name]
      | none => plain
    | .call => Text.concat ["CALL argc=", Text.ofInt operand]
    | .beginTry =>
      match c.regions.entries[operand.toNat]? with
      | some r => Text.concat [plain, " ; ", Text.ofNat r.clauses.length, " catch(es)"]
      | none => Text.concat [plain, " ; <invalid>"]
    | op =>
      if op.width = 0 then op.name
      else if op.isJump then
        Text.concat [op.name, " ", Text.ofIntSigned operand, " (-> ",
          Text.ofIntHex 4 (at_ + op.length + operand), ")"]
      else plain

/-- The lines of the code from an offset on; a line number is shown where it changes. -/
def listCode (c : Chunk) : (fuel offset : Nat) → (lastLine : Int) → List Text
  | 0, _, _ => []
  | fuel + 1, offset, lastLine =>
    if offset < c.codeSize then
      match c.listInstruction? offset with
      | none => []
      | some (text, length) =>
        let line := c.lineAt offset
        let column : Text := if line = lastLine then "   |" else (Text.ofInt line).padLeft 4
        Text.concat [Text.ofIntHex 4 offset, " ", column, "  ", text, "\n"]
          :: c.listCode fuel (offset + length) line
    else []

/-- A position between brackets. -/
def listPosition (i : Int) : Text := Text.concat [";   [", (Text.ofInt i).padLeft 3, "]"]

/-- A constant in at most forty bytes, on one line. -/
def listConstant (k : Constant) : Text :=
  let full := k.listing
  let short : Text := if 40 < full.length then full.take 37 ++ Text.ofString "..." else full
  Text.replaceByte 0x09 "\\t" (Text.replaceByte 0x0A "\\n" short)

/-- A catch clause. -/
def listClause? (c : Chunk) (clause : CatchClause) : Option Text := do
  let names := c.errorTypes.entries
  let type : Text ←
    if clause.isTyped && clause.errorType < names.size then
      if clause.errorType < 0 then none else names[clause.errorType.toNat]?
    else some "*"
  let slot : Text :=
    if clause.binds then Text.concat [" (slot ", Text.ofInt clause.slot, ")"] else []
  some (Text.concat [" catch ", type, " -> ", Text.ofIntHex 4 clause.entry, slot, ";"])

/-- A try region with its position. -/
def listRegion? (c : Chunk) (i : Nat) (region : TryRegion) : Option Text := do
  let clauses ← region.clauses.mapM c.listClause?
  let otherwise : Text :=
    if region.hasElse then Text.concat [" else -> ", Text.ofIntHex 4 region.elseEntry] else []
  some (Text.concat [listPosition i, Text.concat clauses, otherwise, "\n"])

/-- A part of the listing with its title; an empty part is left out. -/
def listPart (title : Text) (lines : List Text) : Text :=
  if lines.isEmpty then [] else Text.concat ["; ", title, ":\n", Text.concat lines, "\n"]

/-- The listing of a chunk, under a name unless that is empty. -/
def listing? (c : Chunk) (name : Text) : Option Text := do
  let constants := c.constants.entries.toList.zipIdx.map fun (k, i) =>
    Text.concat [listPosition i, " ", listConstant k, "\n"]
  let globals := c.globalNames.entries.map fun (slot, name) =>
    let mark : Text := if (c.explicitNames.get? slot).isSome then " (global)" else []
    Text.concat [listPosition slot, " ", name, mark, "\n"]
  let regions ← c.regions.entries.toList.zipIdx.mapM fun (r, i) => c.listRegion? i r
  some (Text.concat [
    if name.isEmpty then [] else Text.concat ["; === ", name, " ===\n"],
    "; DataCode Bytecode v", Text.ofNat c.version.toNat, "\n\n",
    listPart "Constants" constants,
    listPart "Globals" globals,
    listPart "Handlers" regions,
    "; Code:\n",
    Text.concat (c.listCode c.codeSize 0 (-1))])

end Chunk

/-- The listing of a function with its position. -/
def Function.listing? (f : Function) (i : Nat) : Option Text := do
  let chunk ← f.chunk
  let mark : Text := if f.cacheable then " [cached]" else []
  let header := Text.concat [f.name, "/", Text.ofInt f.arity, " #", Text.ofNat i, mark]
  let body ← chunk.listing? header
  let captures := f.captures.toList.zipIdx.map fun (c, j) =>
    Text.concat [Chunk.listPosition j, " ", c.name, " (depth=", Text.ofInt c.depth, ", slot ",
      Text.ofInt c.source, " -> ", Text.ofInt c.target, ")\n"]
  let tail : Text := if captures.isEmpty then [] else "; Captures:\n" ++ Text.concat captures
  some (Text.concat ["\n", body, tail])

/-- The listing of a program: its main chunk and then every function. -/
def Program.listing? (p : Program) : Option Text := do
  let main ← p.main
  let body ← main.listing? "<main>"
  let functions ← p.functions.toList.zipIdx.mapM fun (f, i) => f.bind fun f => f.listing? i
  some (body ++ Text.concat functions)

end TableMachine
