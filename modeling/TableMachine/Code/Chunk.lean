import TableMachine.Code.Constant
import TableMachine.Code.Opcode
import TableMachine.Dictionary

/-! # Chunks

A chunk is the compiled form of a program's top level or of one function: code bytes and the tables
they refer to. A section of a chunk may be absent. An absent section reads as an empty one, but the
two are stored differently, so the difference is kept.

Offsets and slots are integers of 64 bits; `noIndex` stands for an absent one.
-/

namespace TableMachine

/-- Stands for an absent index. -/
def noIndex : Int := -1

/-- A table of a chunk, or its absence. -/
abbrev Section (α : Type) := Option (Array α)

/-- The entries; an absent section has none. -/
def Section.entries {α : Type} (s : Section α) : Array α := s.getD #[]

/-- From the offset on, instructions belong to the line. -/
structure LineEntry where
  offset : Int
  line : Int
deriving DecidableEq, Repr, Inhabited

/-- One catch block of a try region. -/
structure CatchClause where
  /-- Where the block begins. -/
  entry : Int
  /-- The position of the caught type's name, or `noIndex` to catch everything. -/
  errorType : Int
  /-- The slot that receives the message, or `noIndex`. -/
  slot : Int
deriving DecidableEq, Repr, Inhabited

namespace CatchClause

/-- Whether the clause catches one type only. -/
def isTyped (c : CatchClause) : Bool := c.errorType != noIndex

/-- Whether the clause binds the message. -/
def binds (c : CatchClause) : Bool := c.slot != noIndex

end CatchClause

/-- A try region: its catch blocks, and where the block begins that runs when none was entered. -/
structure TryRegion where
  catches : Section CatchClause
  elseEntry : Int
deriving DecidableEq, Repr, Inhabited

namespace TryRegion

/-- The catch clauses in order. -/
def clauses (r : TryRegion) : List CatchClause := r.catches.entries.toList

/-- Whether there is an else block. -/
def hasElse (r : TryRegion) : Bool := r.elseEntry != noIndex

/-- Whether an offset lies in a catch block that ends where the next one begins, the last one at
the else block or, where there is none, nowhere. -/
def coveredFrom (r : TryRegion) (offset : Int) : List CatchClause → Bool
  | [] => false
  | [last] => last.entry ≤ offset && (!r.hasElse || offset < r.elseEntry)
  | clause :: next :: rest =>
    (clause.entry ≤ offset && offset < next.entry) || r.coveredFrom offset (next :: rest)

/-- Whether an offset lies in one of the region's catch blocks. -/
def inCatchBlock (r : TryRegion) (offset : Int) : Bool := r.coveredFrom offset r.clauses

end TryRegion

/-- Names of slots. -/
abbrev NameMap := Dictionary Int Text

/-- Compiled code with its tables. -/
structure Chunk where
  /-- The version of the format. -/
  version : UInt16
  /-- Instructions, each an opcode and its operand with the low byte first. -/
  code : Section UInt8
  constants : Section Constant
  /-- Where lines begin, by offset. -/
  lines : Section LineEntry
  /-- The try regions. -/
  regions : Section TryRegion
  /-- Names of global slots. -/
  globals : Option NameMap
  /-- Names of the global slots that were declared as such. -/
  explicit : Option NameMap
  /-- The names that typed catch clauses refer to. -/
  errorTypes : Section Text
deriving DecidableEq, Repr

namespace Chunk

/-- The version of the format that this library writes. -/
def currentVersion : UInt16 := 1

/-- The chunk that building starts from. -/
def empty : Chunk where
  version := currentVersion
  code := some #[]
  constants := some #[]
  lines := none
  regions := none
  globals := some .empty
  explicit := some .empty
  errorTypes := none

/-- The number of code bytes. -/
def codeSize (c : Chunk) : Nat := c.code.entries.size

/-- The names of global slots; an absent map names none. -/
def globalNames (c : Chunk) : NameMap := c.globals.getD .empty

/-- The names of declared global slots; an absent map names none. -/
def explicitNames (c : Chunk) : NameMap := c.explicit.getD .empty

/-! ## Lines -/

/-- The least position between `low` and `high` whose entry begins after `offset`, found by halving;
`high` when there is none. On entries that are not in order the answer is that of the halving. -/
def searchLine (lines : Array LineEntry) (offset : Int) : (fuel low high : Nat) → Nat
  | 0, low, _ => low
  | fuel + 1, low, high =>
    if low < high then
      let middle := (low + high) / 2
      if offset < (lines.getD middle ⟨0, 0⟩).offset then searchLine lines offset fuel low middle
      else searchLine lines offset fuel (middle + 1) high
    else low

/-- The line of an offset; zero before the first entry. -/
def lineAt (c : Chunk) (offset : Int) : Int :=
  let lines := c.lines.entries
  match searchLine lines offset (lines.size + 1) 0 lines.size with
  | 0 => 0
  | n + 1 => (lines.getD n ⟨0, 0⟩).line

/-! ## Operands -/

/-- The natural number of the bytes, the lowest first. -/
def unsignedOf : List UInt8 → Nat
  | [] => 0
  | b :: rest => b.toNat + 256 * unsignedOf rest

/-- The bytes of an operand: the lowest `width` ones of an integer, the lowest first. -/
def operandBytes : (width : Nat) → Int → List UInt8
  | 0, _ => []
  | width + 1, i => (i % 256).toNat.toUInt8 :: operandBytes width (i / 256)

/-- An operand of `width` bytes, read with or without a sign. -/
def decodeOperand (signed : Bool) (bytes : List UInt8) : Int :=
  let n := unsignedOf bytes
  if signed then Int.bmod n (pow256 bytes.length) else n

/-- The operand bytes that follow an opcode, if the code holds them all. -/
def operandAt? (code : Array UInt8) (op : Opcode) (offset : Nat) : Option (List UInt8) :=
  if offset + op.length ≤ code.size then
    some ((List.range op.width).map fun i => code.getD (offset + 1 + i) 0)
  else none

/-- An instruction with its operand, decoded. -/
structure Instruction where
  op : Opcode
  operand : Int
deriving DecidableEq, Repr

/-- The instruction at an offset: a known opcode whose operand lies within the code. -/
def instruction? (c : Chunk) (offset : Nat) : Option Instruction := do
  let byte ← c.code.entries[offset]?
  let op ← Opcode.ofByte? byte
  let bytes ← operandAt? c.code.entries op offset
  some ⟨op, decodeOperand op.isSigned bytes⟩

/-- The operand of whatever stands at an offset; a byte that is no opcode has the operand zero, and
there is none outside the code or where the code ends too early. -/
def operand? (c : Chunk) (offset : Int) : Option Int :=
  if offset < 0 then none
  else match c.code.entries[offset.toNat]? with
    | none => none
    | some byte =>
      match Opcode.ofByte? byte with
      | none => some 0
      | some op =>
        (operandAt? c.code.entries op offset.toNat).map (decodeOperand op.isSigned)

end Chunk

end TableMachine
