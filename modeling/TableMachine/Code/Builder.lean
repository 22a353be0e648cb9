import TableMachine.Code.Chunk

/-! # Building chunks

A builder is a chunk in the making together with the current source line. Emitting appends one
instruction and notes where its line begins; jumps are emitted first and patched once their target
is known.
-/

namespace TableMachine

/-- A chunk in the making. -/
structure Builder where
  chunk : Chunk := .empty
  /-- The line that emitted instructions belong to. -/
  line : Int := 0

/-- Why a jump was not patched. -/
inductive PatchError where
  /-- No complete instruction stands at the offset. -/
  | outside
  /-- The byte at the offset is no jump. -/
  | notJump (at_ : Int) (byte : UInt8)
  /-- The distance is out of the jump's reach. -/
  | tooFar (at_ : Int) (distance : Int) (op : Opcode)
deriving DecidableEq, Repr

namespace PatchError

/-- The wording of the refusal. -/
def message : PatchError → Text
  | outside => "patch outside the code"
  | notJump at_ byte =>
    Text.concat ["patch at ", Text.ofIntHex 4 at_, ": ", Opcode.nameOfByte byte, " is not a jump"]
  | tooFar at_ distance op =>
    Text.concat ["patch at ", Text.ofIntHex 4 at_, ": offset ", Text.ofInt distance,
      " does not fit in ", op.name]

end PatchError

namespace Builder

/-- The code bytes so far. -/
def code (b : Builder) : Array UInt8 := b.chunk.code.entries

/-- The offset of the next instruction. -/
def offset (b : Builder) : Nat := b.code.size

/-- The builder with another current line. -/
def setLine (b : Builder) (line : Int) : Builder := { b with line := line }

/-- Lines with the current one noted at `offset`, unless the last entry already has it. -/
def markLine (lines : Section LineEntry) (offset : Nat) (line : Int) : Section LineEntry :=
  match lines.entries.back? with
  | some last =>
    if last.line = line then lines else some (lines.entries.push ⟨offset, line⟩)
  | none => some (lines.entries.push ⟨offset, line⟩)

/-- Code with bytes appended. -/
def extend (code : Section UInt8) (bytes : List UInt8) : Section UInt8 :=
  match code with
  | some code => some (bytes.foldl Array.push code)
  | none => some bytes.toArray

/-- The builder with bytes appended as one instruction. -/
def append (b : Builder) (bytes : List UInt8) : Builder :=
  let lines := markLine b.chunk.lines b.offset b.line
  { b with chunk := { b.chunk with code := extend b.chunk.code bytes, lines := lines } }

/-- The builder with an instruction appended; the operand is cut to the opcode's width. -/
def emit (b : Builder) (op : Opcode) (operand : Int) : Builder :=
  b.append (op.toByte :: Chunk.operandBytes op.width operand)

/-- The builder with any byte appended as an instruction; one that is no opcode has no operand. -/
def emitByte (b : Builder) (byte : UInt8) (operand : Int) : Builder :=
  match Opcode.ofByte? byte with
  | some op => b.emit op operand
  | none => b.append [byte]

/-- The position of a constant in the pool, added to it unless an entry can serve. -/
def addConstant (b : Builder) (k : Constant) : Nat × Builder :=
  let pool := b.chunk.constants.entries
  match pool.findIdx? (·.same k) with
  | some i => (i, b)
  | none => (pool.size, { b with chunk := { b.chunk with constants := some (pool.push k) } })

/-- The builder with an instruction appended that loads a constant. -/
def emitConstant (b : Builder) (k : Constant) : Builder :=
  let (i, b) := b.addConstant k
  b.emit .constant i

/-- The builder with a jump of the given operand width appended, its distance zero. -/
def emitJump (b : Builder) (conditional : Bool) (width : Int) : Builder :=
  b.emit (Opcode.jumpOfWidth conditional width) 0

/-- The distance from the end of a jump to a target, in 64 bits. -/
def distance (at_ : Int) (width : Nat) (target : Int) : Int :=
  Int.bmod (target - (at_ + 1 + width)) (pow2 64)

/-- The code with bytes in place of those from `start` on. -/
def overwrite (code : Array UInt8) : (start : Nat) → List UInt8 → Array UInt8
  | _, [] => code
  | start, byte :: rest => overwrite (code.setIfInBounds start byte) (start + 1) rest

/-- The builder with the jump at an offset set to land on `target`. -/
def patchJumpTo (b : Builder) (at_ target : Int) : Except PatchError Builder :=
  if at_ < 0 then .error .outside
  else match b.code[at_.toNat]? with
    | none => .error .outside
    | some byte =>
      match Opcode.ofByte? byte with
      | none => .error (.notJump at_ byte)
      | some op =>
        if !op.isJump then .error (.notJump at_ byte)
        else
          let d := distance at_ op.width target
          if op.width < Opcode.jumpWidth d then .error (.tooFar at_ d op)
          else if b.code.size < at_.toNat + op.length then .error .outside
          else .ok { b with chunk := { b.chunk with
            code := some (overwrite b.code (at_.toNat + 1) (Chunk.operandBytes op.width d)) } }

/-- The builder with the jump at an offset set to land on the end of the code. -/
def patchJump (b : Builder) (at_ : Int) : Except PatchError Builder :=
  b.patchJumpTo at_ b.offset

/-- The builder with a jump back to `target` appended, as narrow as reaches it. -/
def emitLoop (b : Builder) (target : Int) : Builder :=
  let reach (width : Nat) := distance b.offset width target
  if Opcode.jumpWidth (reach 1) ≤ 1 then b.emit .jump8 (reach 1)
  else if Opcode.jumpWidth (reach 2) ≤ 2 then b.emit .jump16 (reach 2)
  else b.emit .jump32 (reach 4)

/-- The position of a new try region. -/
def addRegion (b : Builder) (region : TryRegion) : Nat × Builder :=
  let regions := b.chunk.regions.entries
  (regions.size, { b with chunk := { b.chunk with regions := some (regions.push region) } })

/-- The position of an error type's name, added unless it is present. -/
def addErrorType (b : Builder) (name : Text) : Nat × Builder :=
  let names := b.chunk.errorTypes.entries
  match names.findIdx? (· == name) with
  | some i => (i, b)
  | none => (names.size, { b with chunk := { b.chunk with errorTypes := some (names.push name) } })

/-- The builder with a global slot named. -/
def declareGlobal (b : Builder) (slot : Int) (name : Text) (explicit : Bool) : Builder :=
  { b with chunk := { b.chunk with
      globals := some (b.chunk.globalNames.set slot name)
      explicit :=
        if explicit then some (b.chunk.explicitNames.set slot name) else b.chunk.explicit } }

end Builder

end TableMachine
