import Mathlib.Algebra.Ring.Int.Defs
import Mathlib.Data.List.Forall2
import TableMachine.Code.Builder

/-! # Built code reads back

The code of a builder is made by appending instructions and by overwriting the operands of jumps, in any order.
Reading goes from offset zero on, each instruction telling by its opcode how far the next one is. The two agree:
`Making` keeps, next to the builder, what was emitted where and where each jump was last made to land, and at any
time the code is the bytes of these instructions one after the other. So it reads back as what was emitted.
-/

namespace TableMachine

/-! ## Operands as bytes -/

/-- The operand is one that the opcode can have: the width and the sign of the opcode leave room for it. An
opcode without operand has the operand zero. -/
def Opcode.Fits (op : Opcode) (operand : Int) : Prop :=
  if op.isSigned then -(pow256 op.width : Int) ≤ 2 * operand ∧ 2 * operand < pow256 op.width
  else 0 ≤ operand ∧ operand < pow256 op.width

instance (op : Opcode) (operand : Int) : Decidable (op.Fits operand) :=
  inferInstanceAs (Decidable (if op.isSigned then _ else _))

theorem Opcode.fits_zero (op : Opcode) : op.Fits 0 := by
  have room : 0 < pow256 op.width := Nat.pow_pos (by decide)
  unfold Fits
  split
  · omega
  · omega

theorem Opcode.ofByte?_toByte (op : Opcode) : Opcode.ofByte? op.toByte = some op := by
  cases op <;> rfl

namespace Chunk

@[simp] theorem length_operandBytes (width : Nat) (operand : Int) :
    (operandBytes width operand).length = width := by
  induction width generalizing operand with
  | zero => rfl
  | succ width ih => simp [operandBytes, ih]

theorem unsignedOf_operandBytes (width : Nat) (operand : Int) :
    (unsignedOf (operandBytes width operand) : Int) = operand % pow256 width := by
  induction width generalizing operand with
  | zero => exact (Int.emod_one operand).symm
  | succ width ih =>
      have low : ((operand % 256).toNat.toUInt8.toNat : Int) = operand % 256 := by
        simp only [Nat.toUInt8, UInt8.toNat_ofNat']
        omega
      have power : (pow256 (width + 1) : Int) = 256 * pow256 width :=
        congrArg Nat.cast (Nat.mul_comm _ _)
      have nested : operand / 256 / pow256 width = operand / (256 * pow256 width) :=
        Int.ediv_ediv_of_nonneg (by decide)
      -- The lowest byte comes first, and what is left is an operand one byte narrower.
      have split : operand % pow256 (width + 1) = operand % 256 + 256 * (operand / 256 % pow256 width) := by
        rw [power, Int.emod_def, Int.emod_def, Int.emod_def, nested, Int.mul_sub, Int.mul_assoc]
        omega
      simp only [operandBytes, unsignedOf, Int.natCast_add, Int.natCast_mul, ih, low, split]
      rfl

theorem decodeOperand_operandBytes {op : Opcode} {operand : Int} (fits : op.Fits operand) :
    decodeOperand op.isSigned (operandBytes op.width operand) = operand := by
  simp only [decodeOperand, length_operandBytes, unsignedOf_operandBytes]
  unfold Opcode.Fits at fits
  split at fits
  · rename_i signed
    rw [if_pos signed, Int.emod_bmod]
    exact Int.bmod_eq_of_le_mul_two (by omega) (by omega)
  · rename_i unsigned
    rw [if_neg unsigned]
    exact Int.emod_eq_of_lt fits.1 fits.2

/-! ## Reading -/

/-- The instructions from an offset on, each with its offset, as far as the code goes. Nothing where a byte is
met that is no opcode, or an operand is cut off. -/
def visitFrom (c : Chunk) (offset : Nat) : Option (List (Nat × Instruction)) :=
  match _inside : c.code.entries[offset]? with
  | none => some []
  | some byte => do
    let op ← Opcode.ofByte? byte
    let operand ← c.operand? offset
    let rest ← c.visitFrom (offset + op.length)
    some ((offset, ⟨op, operand⟩) :: rest)
termination_by c.codeSize - offset
decreasing_by
  have present := (Array.getElem?_eq_some_iff.mp _inside).1
  unfold codeSize Opcode.length
  omega

theorem visitFrom_end {c : Chunk} {offset : Nat} (end_ : c.codeSize ≤ offset) :
    c.visitFrom offset = some [] := by
  rw [visitFrom, Array.getElem?_eq_none end_]

theorem visitFrom_of_operand? {c : Chunk} {offset : Nat} {op : Opcode} {operand : Int}
    (byte : c.code.entries[offset]? = some op.toByte) (read : c.operand? offset = some operand) :
    c.visitFrom offset =
      (c.visitFrom (offset + op.length)).map fun rest => (offset, ⟨op, operand⟩) :: rest := by
  rw [visitFrom, byte]
  simp only [Opcode.ofByte?_toByte, read, Option.bind_eq_bind, Option.bind_some]
  cases c.visitFrom (offset + op.length) with
  | none => rfl
  | some rest => rfl

theorem operandAt?_of_bytes {c : Chunk} {op : Opcode} {before bytes after : List UInt8}
    (code : c.code.entries.toList = before ++ op.toByte :: bytes ++ after) (width : bytes.length = op.width) :
    c.code.entries[before.length]? = some op.toByte ∧
      operandAt? c.code.entries op before.length = some bytes := by
  have size : before.length + op.length + after.length = c.code.entries.size := by
    rw [← Array.length_toList, code]
    simp [Opcode.length, width]
    omega
  constructor
  · rw [← Array.getElem?_toList, code]
    simp
  · unfold operandAt?
    rw [if_pos (by omega), Option.some.injEq]
    apply List.ext_getElem
    · simp [width]
    · intro n inside present
      have read : c.code.entries[before.length + 1 + n]? = bytes[n]? := by
        rw [← Array.getElem?_toList, code, List.append_assoc, List.getElem?_append_right (by omega),
          show before.length + 1 + n - before.length = n + 1 by omega, List.cons_append,
          List.getElem?_cons_succ, List.getElem?_append_left present]
      rw [List.getElem?_eq_getElem present] at read
      simp [Array.getD_eq_getD_getElem?, read]

theorem operand?_of_bytes {c : Chunk} {op : Opcode} {operand : Int} {before after : List UInt8}
    (code : c.code.entries.toList = before ++ op.toByte :: operandBytes op.width operand ++ after)
    (fits : op.Fits operand) :
    c.code.entries[before.length]? = some op.toByte ∧ c.operand? before.length = some operand := by
  obtain ⟨byte, bytes⟩ := operandAt?_of_bytes code (length_operandBytes _ _)
  refine ⟨byte, ?_⟩
  unfold operand?
  rw [if_neg (by omega), Int.toNat_natCast, byte]
  simp only [Opcode.ofByte?_toByte, bytes, Option.map_some, decodeOperand_operandBytes fits]

end Chunk

namespace Builder

/-! ## Calls of a builder -/

/-- A call that changes a chunk in the making. -/
inductive Call where
  | setLine (line : Int)
  | emit (op : Opcode) (operand : Int)
  | emitConstant (k : Constant)
  | emitJump (conditional : Bool) (width : Int)
  | patchJump (at_ : Int)
  | patchJumpTo (at_ target : Int)

/-- What a call answers: the builder after it, or why a jump was not patched. -/
def answer (b : Builder) : Call → Except PatchError Builder
  | .setLine line => .ok (b.setLine line)
  | .emit op operand => .ok (b.emit op operand)
  | .emitConstant k => .ok (b.emitConstant k)
  | .emitJump conditional width => .ok (b.emitJump conditional width)
  | .patchJump at_ => b.patchJump at_
  | .patchJumpTo at_ target => b.patchJumpTo at_ target

/-- The jump that a call is to patch, by its offset, and where it is to land. -/
def patch? (b : Builder) : Call → Option (Int × Int)
  | .patchJump at_ => some (at_, b.offset)
  | .patchJumpTo at_ target => some (at_, target)
  | _ => none

/-- An instruction that was emitted with an operand, and where it was last made to land if it is a jump that
was patched. -/
structure Emitted where
  offset : Nat
  op : Opcode
  operand : Int
  target : Option Int := none
deriving DecidableEq, Repr

namespace Emitted

/-- The instruction after the jump at an offset was patched. -/
def retargeted (at_ target : Int) (e : Emitted) : Emitted :=
  if e.offset = at_ then { e with target := some target } else e

/-- The operand in the code: of a jump that was patched, the distance to its target. -/
def shown (e : Emitted) : Int :=
  match e.target with
  | none => e.operand
  | some target => target - (e.offset + e.op.length)

def bytes (e : Emitted) : List UInt8 := e.op.toByte :: Chunk.operandBytes e.op.width e.shown

/-- What is met when the code is read is this instruction at its offset. It has the operand given unless it is a
jump that was patched, and such a jump lands where it was last made to. -/
structure ReadAs (e : Emitted) (visited : Nat × Chunk.Instruction) : Prop where
  offset : visited.1 = e.offset
  op : visited.2.op = e.op
  given : e.target = none → visited.2.operand = e.operand
  lands : ∀ target, e.target = some target → e.offset + e.op.length + visited.2.operand = target

end Emitted

/-- What was emitted after a call that was not refused. -/
def noted (b : Builder) (emitted : List Emitted) : Call → List Emitted
  | .setLine _ => emitted
  | .emit op operand => emitted ++ [⟨b.offset, op, operand, none⟩]
  | .emitConstant k => emitted ++ [⟨b.offset, .constant, (b.addConstant k).1, none⟩]
  | .emitJump conditional width => emitted ++ [⟨b.offset, .jumpOfWidth conditional width, 0, none⟩]
  | .patchJump at_ => emitted.map (Emitted.retargeted at_ b.offset)
  | .patchJumpTo at_ target => emitted.map (Emitted.retargeted at_ target)

end Builder

/-- A builder together with what was emitted so far, in order. -/
structure Making where
  builder : Builder := {}
  emitted : List Builder.Emitted := []

namespace Making

open Builder

/-- The making after a call, which is the same one if the call was refused. -/
def call (w : Making) (made : Call) : Making :=
  match w.builder.answer made with
  | .ok b => ⟨b, w.builder.noted w.emitted made⟩
  | .error _ => w

def calls (w : Making) (made : List Call) : Making := made.foldl call w

/-- A jump was emitted at the offset, and its distance to the target can be written in 32 bits. -/
def Reaches (w : Making) (at_ target : Int) : Prop :=
  ∃ e ∈ w.emitted, e.op.isJump = true ∧ at_ = e.offset ∧
    -(2 ^ 31 : Int) ≤ target - (e.offset + e.op.length) ∧ target - (e.offset + e.op.length) < 2 ^ 31

/-- The calls that code can be built with: operands fit, the pool of constants does not grow beyond what an operand
can number, and jumps are patched that were emitted before. -/
def Allows (w : Making) : Call → Prop
  | .setLine _ | .emitJump .. => True
  | .emit op operand => op.Fits operand
  | .emitConstant k => (w.builder.addConstant k).2.chunk.constants.entries.size ≤ 65536
  | .patchJump at_ => w.Reaches at_ w.builder.offset
  | .patchJumpTo at_ target => w.Reaches at_ target

/-- Each of the calls is allowed when it is made. -/
def AllowsAll (w : Making) : List Call → Prop
  | [] => True
  | made :: rest => w.Allows made ∧ (w.call made).AllowsAll rest

instance (w : Making) (at_ target : Int) : Decidable (w.Reaches at_ target) :=
  inferInstanceAs (Decidable (∃ e ∈ w.emitted, _))

instance (w : Making) : (made : Call) → Decidable (w.Allows made)
  | .setLine _ | .emitJump .. => isTrue trivial
  | .emit op operand => inferInstanceAs (Decidable (op.Fits operand))
  | .emitConstant _ => inferInstanceAs (Decidable (_ ≤ 65536))
  | .patchJump at_ => inferInstanceAs (Decidable (w.Reaches at_ w.builder.offset))
  | .patchJumpTo at_ target => inferInstanceAs (Decidable (w.Reaches at_ target))

instance decideAllowsAll : (w : Making) → (made : List Call) → Decidable (w.AllowsAll made)
  | _, [] => isTrue trivial
  | w, made :: rest =>
    have := decideAllowsAll (w.call made) rest
    inferInstanceAs (Decidable (w.Allows made ∧ (w.call made).AllowsAll rest))

end Making

/-! ## What was emitted in the code -/

namespace Builder

variable {b : Builder} {code : Array UInt8} {before old new after bytes : List UInt8} {op : Opcode}
  {operand : Int} {start p : Nat}

theorem toList_extend (code : Section UInt8) (bytes : List UInt8) :
    (extend code bytes).entries.toList = code.entries.toList ++ bytes := by
  cases code with
  | none => rfl
  | some code =>
      show (bytes.foldl Array.push code).toList = code.toList ++ bytes
      simp

theorem toList_emit (b : Builder) (op : Opcode) (operand : Int) :
    (b.emit op operand).code.toList =
      b.code.toList ++ op.toByte :: Chunk.operandBytes op.width operand :=
  toList_extend _ _

theorem addConstant_code (b : Builder) (k : Constant) : (b.addConstant k).2.code = b.code := by
  unfold addConstant
  dsimp only
  split
  · rfl
  · rfl

theorem addConstant_lt (b : Builder) (k : Constant) :
    (b.addConstant k).1 < (b.addConstant k).2.chunk.constants.entries.size := by
  unfold addConstant
  dsimp only
  split
  · rename_i found
    exact (Array.findIdx?_eq_some_iff_getElem.mp found).1
  · exact Nat.lt_of_lt_of_eq (Nat.lt_succ_self _) (Array.size_push _).symm

@[simp] theorem size_overwrite (code : Array UInt8) (start : Nat) (bytes : List UInt8) :
    (overwrite code start bytes).size = code.size := by
  induction bytes generalizing code start with
  | nil => rfl
  | cons byte rest ih => rw [overwrite, ih, Array.size_setIfInBounds]

theorem getElem?_overwrite (outside : p < start ∨ start + bytes.length ≤ p) :
    (overwrite code start bytes)[p]? = code[p]? := by
  induction bytes generalizing code start with
  | nil => rfl
  | cons byte rest ih =>
      rw [List.length_cons] at outside
      rw [overwrite, ih (by omega), Array.getElem?_setIfInBounds_ne (by omega)]

theorem toList_overwrite (split : code.toList = before ++ old ++ after) (same : old.length = new.length) :
    (overwrite code before.length new).toList = before ++ new ++ after := by
  induction new generalizing code before old with
  | nil =>
      rw [List.length_eq_zero_iff.mp same] at split
      exact split
  | cons byte rest ih =>
      cases old with
      | nil => cases same
      | cons first old =>
          have written : (code.setIfInBounds before.length byte).toList = before ++ [byte] ++ old ++ after := by
            rw [Array.toList_setIfInBounds, split]
            simp
          have result := ih written (Nat.succ.inj same)
          rw [List.length_append, List.length_singleton] at result
          rw [overwrite, result]
          simp

/-- The builder after the operand of an emitted instruction was written anew. -/
def patched (b : Builder) (e : Emitted) (operand : Int) : Builder :=
  { b with chunk := { b.chunk with
      code := some (overwrite b.code (e.offset + 1) (Chunk.operandBytes e.op.width operand)) } }

/-- The jump that stands at an offset is patched if its width has room for the distance. -/
theorem patchJumpTo_eq {e : Emitted} {target : Int} (byte : b.code[e.offset]? = some e.op.toByte)
    (size : e.offset + e.op.length ≤ b.code.size) (jump : e.op.isJump = true) :
    b.patchJumpTo e.offset target =
      if e.op.width < Opcode.jumpWidth (distance e.offset e.op.width target) then
        .error (.tooFar e.offset (distance e.offset e.op.width target) e.op)
      else .ok (b.patched e (distance e.offset e.op.width target)) := by
  unfold patchJumpTo
  rw [if_neg (by omega), Int.toNat_natCast, byte]
  simp only [Opcode.ofByte?_toByte, jump, Bool.not_true, Bool.false_eq_true, if_false]
  rw [if_neg (Nat.not_lt.mpr size)]
  rfl

/-- `b'` is `b` with other bytes at some `width` places from `start` on, and nothing else changed. -/
structure Patches (b : Builder) (start width : Nat) (b' : Builder) : Prop where
  size : b'.code.size = b.code.size
  outside : ∀ p, p < start ∨ start + width ≤ p → b'.code[p]? = b.code[p]?
  rest : b' = { b with chunk := { b.chunk with code := b'.chunk.code } }

namespace Emitted

variable {e : Emitted} {emitted earlier later : List Emitted} {at_ target : Int}

@[simp] theorem length_bytes (e : Emitted) : e.bytes.length = e.op.length := by
  simp [bytes, Opcode.length, Nat.add_comm]

@[simp] theorem retargeted_offset (e : Emitted) : (e.retargeted at_ target).offset = e.offset := by
  unfold retargeted
  split <;> rfl

@[simp] theorem retargeted_op (e : Emitted) : (e.retargeted at_ target).op = e.op := by
  unfold retargeted
  split <;> rfl

/-- Each instruction begins where the one before it ends, the first one at `start`. -/
def Laid : (start : Nat) → List Emitted → Prop
  | _, [] => True
  | start, e :: rest => e.offset = start ∧ Laid (start + e.op.length) rest

theorem laid_append : Laid start (earlier ++ later) ↔
    Laid start earlier ∧ Laid (start + (earlier.flatMap Emitted.bytes).length) later := by
  induction earlier generalizing start with
  | nil => simp [Laid]
  | cons e rest ih =>
      rw [List.cons_append, Laid, Laid, ih, List.flatMap_cons, List.length_append, length_bytes, and_assoc,
        Nat.add_assoc]

theorem Laid.map_retargeted (laid : Laid start emitted) :
    Laid start (emitted.map (retargeted at_ target)) := by
  induction emitted generalizing start with
  | nil => trivial
  | cons e rest ih => exact ⟨by simpa using laid.1, by simpa using ih laid.2⟩

theorem Laid.bounds (laid : Laid start emitted) :
    ∀ e ∈ emitted, start ≤ e.offset ∧ e.offset < start + (emitted.flatMap Emitted.bytes).length := by
  induction emitted generalizing start with
  | nil => simp
  | cons first rest ih =>
      have positive : 0 < first.op.length := Nat.lt_add_right _ Nat.one_pos
      rw [List.flatMap_cons, List.length_append, length_bytes]
      intro e member
      rcases List.mem_cons.mp member with rfl | behind
      · have offset := laid.1
        omega
      · have bounds := ih laid.2 e behind
        omega

theorem Laid.retarget (laid : Laid start (earlier ++ e :: later)) (target : Int) :
    (earlier ++ e :: later).map (retargeted e.offset target) =
      earlier ++ { e with target := some target } :: later := by
  -- No two instructions have one offset, so the patch is noted at `e` and nowhere else.
  obtain ⟨before, offset, behind⟩ := laid_append.mp laid
  have other : ∀ g : Emitted, g.offset ≠ e.offset → g.retargeted e.offset target = g := by
    intro g apart
    exact if_neg fun same => apart (Int.ofNat.inj same)
  have same : e.retargeted e.offset target = { e with target := some target } := if_pos rfl
  have left : earlier.map (retargeted e.offset target) = earlier.map id := by
    apply List.map_congr_left
    intro g member
    have bounds := before.bounds g member
    exact other g (by omega)
  have right : later.map (retargeted e.offset target) = later.map id := by
    apply List.map_congr_left
    intro g member
    have positive : 0 < e.op.length := Nat.lt_add_right _ Nat.one_pos
    have bounds := behind.bounds g member
    exact other g (by omega)
  rw [List.map_append, List.map_cons, same, left, right, List.map_id, List.map_id]

end Emitted

end Builder

/-! ## Every call keeps the code readable -/

namespace Making

open Builder

variable {w : Making} {e : Emitted} {op : Opcode} {operand target at_ : Int} {made : Call}

/-- The code is what was emitted, at the offsets that were noted, and each operand fits. -/
structure Faithful (w : Making) : Prop where
  code : w.builder.code.toList = w.emitted.flatMap Emitted.bytes
  laid : Emitted.Laid 0 w.emitted
  fits : ∀ e ∈ w.emitted, e.op.Fits e.shown

theorem start_faithful : Faithful {} := ⟨rfl, trivial, by simp⟩

theorem Faithful.emit (faithful : w.Faithful) {b : Builder} (code : b.code = w.builder.code)
    (fits : op.Fits operand) :
    Faithful ⟨b.emit op operand, w.emitted ++ [⟨w.builder.offset, op, operand, none⟩]⟩ where
  code := by
    rw [toList_emit, code, faithful.code, List.flatMap_append, List.flatMap_singleton]
    rfl
  laid := by
    refine Emitted.laid_append.mpr ⟨faithful.laid, ?_, trivial⟩
    show w.builder.code.size = _
    rw [Nat.zero_add, ← faithful.code, Array.length_toList]
  fits := by
    intro e member
    rcases List.mem_append.mp member with earlier | last
    · exact faithful.fits e earlier
    · rw [List.mem_singleton.mp last]
      exact fits

end Making

/-- A jump of one byte or of two is as wide as the distance asks for; one of four takes any of 32 bits. -/
theorem Opcode.le_of_jumpWidth (distance : Int) :
    (jumpWidth distance ≤ 1 → -128 ≤ distance ∧ distance ≤ 127) ∧
    (jumpWidth distance ≤ 2 → -32768 ≤ distance ∧ distance ≤ 32767) := by
  unfold jumpWidth
  split
  · omega
  · split <;> omega

theorem Opcode.fits_of_jumpWidth {op : Opcode} {distance : Int} (jump : op.isJump = true)
    (wide : jumpWidth distance ≤ op.width) (low : -(2 ^ 31 : Int) ≤ distance) (high : distance < 2 ^ 31) :
    op.Fits distance := by
  have signed : op.isSigned = true := jump
  have widths : op.width = 1 ∨ op.width = 2 ∨ op.width = 4 := by
    cases op <;> first | decide | cases jump
  have narrow := le_of_jumpWidth distance
  unfold Fits
  rw [if_pos signed]
  rcases widths with width | width | width <;> rw [width] at wide ⊢
  · have bounds := narrow.1 wide
    rw [show (pow256 1 : Int) = 256 from rfl]
    omega
  · have bounds := narrow.2 wide
    rw [show (pow256 2 : Int) = 65536 from rfl]
    omega
  · rw [show (pow256 4 : Int) = 4294967296 from rfl]
    omega

namespace Making

open Builder

variable {w : Making} {e : Emitted} {earlier later : List Emitted} {at_ target distance : Int} {made : Call}

theorem Faithful.split (faithful : w.Faithful) (emitted : w.emitted = earlier ++ e :: later) :
    w.builder.code.toList =
      earlier.flatMap Emitted.bytes ++ e.bytes ++ later.flatMap Emitted.bytes ∧
    e.offset = (earlier.flatMap Emitted.bytes).length := by
  have laid := faithful.laid
  rw [emitted, Emitted.laid_append, Nat.zero_add] at laid
  refine ⟨?_, laid.2.1⟩
  rw [faithful.code, emitted, List.flatMap_append, List.flatMap_cons, List.append_assoc]

/-- The jump at an emitted instruction is patched if its width has room for the distance. -/
theorem Faithful.patchJumpTo_eq (faithful : w.Faithful) (emitted : w.emitted = earlier ++ e :: later)
    (jump : e.op.isJump = true) (far : distance = target - (e.offset + e.op.length))
    (low : -(2 ^ 31 : Int) ≤ distance) (high : distance < 2 ^ 31) :
    w.builder.patchJumpTo e.offset target =
      if e.op.width < Opcode.jumpWidth distance then .error (.tooFar e.offset distance e.op)
      else .ok (w.builder.patched e distance) := by
  obtain ⟨code, offset⟩ := faithful.split emitted
  have byte : w.builder.code[e.offset]? = some e.op.toByte := by
    rw [← Array.getElem?_toList, code, offset, List.append_assoc, List.getElem?_append_right (Nat.le_refl _),
      Nat.sub_self]
    rfl
  have size : e.offset + e.op.length ≤ w.builder.code.size := by
    rw [← Array.length_toList, code, List.length_append, List.length_append, Emitted.length_bytes]
    omega
  have reach : Builder.distance e.offset e.op.width target = distance := by
    have same : target - ((e.offset : Int) + 1 + e.op.width) = distance := by
      rw [far, Opcode.length]
      omega
    -- The difference is taken modulo 2 ^ 64, where a distance of 32 bits is itself.
    have room : (pow2 64 : Int) = 2 ^ 64 := rfl
    unfold Builder.distance
    rw [same]
    exact Int.bmod_eq_of_le_mul_two (by omega) (by omega)
  rw [Builder.patchJumpTo_eq byte size jump, reach]

theorem patched_patches (b : Builder) (e : Emitted) (distance : Int) :
    b.Patches (e.offset + 1) e.op.width (b.patched e distance) where
  size := size_overwrite _ _ _
  outside := by
    intro p outside
    exact getElem?_overwrite (by rwa [Chunk.length_operandBytes])
  rest := rfl

theorem Faithful.patched (faithful : w.Faithful) (emitted : w.emitted = earlier ++ e :: later)
    (far : distance = target - (e.offset + e.op.length)) (fits : e.op.Fits distance) :
    Faithful ⟨w.builder.patched e distance, w.emitted.map (Emitted.retargeted e.offset target)⟩ := by
  obtain ⟨code, offset⟩ := faithful.split emitted
  have laid := faithful.laid
  rw [emitted] at laid
  have shown : Emitted.shown { e with target := some target } = distance := far.symm
  refine ⟨?_, faithful.laid.map_retargeted, ?_⟩
  · -- The opcode stays, so it goes with the bytes before those that are overwritten.
    have opened : w.builder.code.toList =
        earlier.flatMap Emitted.bytes ++ [e.op.toByte] ++ Chunk.operandBytes e.op.width e.shown ++
          later.flatMap Emitted.bytes := by
      rw [code, Emitted.bytes]
      simp
    have written : (overwrite w.builder.code _ (Chunk.operandBytes e.op.width distance)).toList = _ :=
      toList_overwrite opened (by simp)
    rw [List.length_append, List.length_singleton, ← offset] at written
    rw [emitted, laid.retarget target, List.flatMap_append, List.flatMap_cons, Emitted.bytes, shown]
    refine written.trans ?_
    simp
  · intro g member
    rw [emitted, laid.retarget target] at member
    rcases List.mem_append.mp member with before | behind
    · exact faithful.fits g (by rw [emitted]; exact List.mem_append_left _ before)
    · rcases List.mem_cons.mp behind with rfl | behind
      · rw [shown]
        exact fits
      · exact faithful.fits g (by rw [emitted]; simp [behind])

/-! ## Whole buildings -/

/-- What an allowed patch does: the operand of the jump is written anew if its width has room for the distance,
and otherwise the patch is refused. -/
theorem Faithful.patch_cases (faithful : w.Faithful) (reaches : w.Reaches at_ target) :
    ∃ e ∈ w.emitted, at_ = e.offset ∧
      ((∃ b, w.builder.patchJumpTo at_ target = .ok b ∧
          Opcode.jumpWidth (target - (e.offset + e.op.length)) ≤ e.op.width ∧
          w.builder.Patches (e.offset + 1) e.op.width b ∧
          Faithful ⟨b, w.emitted.map (Emitted.retargeted at_ target)⟩) ∨
        ∃ error, w.builder.patchJumpTo at_ target = .error error ∧
          e.op.width < Opcode.jumpWidth (target - (e.offset + e.op.length))) := by
  obtain ⟨e, member, jump, rfl, low, high⟩ := reaches
  obtain ⟨earlier, later, emitted⟩ := List.append_of_mem member
  have answered := faithful.patchJumpTo_eq emitted jump rfl low high
  refine ⟨e, member, rfl, ?_⟩
  split at answered
  · rename_i narrow
    exact .inr ⟨_, answered, narrow⟩
  · rename_i room
    have wide := Nat.not_lt.mp room
    have fits := Opcode.fits_of_jumpWidth jump wide low high
    exact .inl ⟨_, answered, wide, patched_patches _ _ _, faithful.patched emitted rfl fits⟩

/-- A call that patches is the one with the target spelled out. -/
theorem answer_of_patch? {b : Builder} (patch : b.patch? made = some (at_, target)) :
    b.answer made = b.patchJumpTo at_ target ∧
      ∀ emitted, b.noted emitted made = emitted.map (Emitted.retargeted at_ target) := by
  cases made with
  | patchJump | patchJumpTo =>
      cases patch
      exact ⟨rfl, fun _ => rfl⟩
  | _ => cases patch

theorem Allows.reaches (allowed : w.Allows made) (patch : w.builder.patch? made = some (at_, target)) :
    w.Reaches at_ target := by
  cases made with
  | patchJump | patchJumpTo =>
      cases patch
      exact allowed
  | _ => cases patch

theorem Faithful.call_of_patch? (faithful : w.Faithful) (allowed : w.Allows made)
    (patch : w.builder.patch? made = some (at_, target)) : (w.call made).Faithful := by
  obtain ⟨answer, noted⟩ := answer_of_patch? patch
  obtain ⟨e, _, _, ⟨b, ok, _, _, kept⟩ | ⟨error, refused, _⟩⟩ :=
    faithful.patch_cases (allowed.reaches patch)
  · rw [Making.call, answer, ok, noted]
    exact kept
  · rw [Making.call, answer, refused]
    exact faithful

theorem Faithful.call (faithful : w.Faithful) (allowed : w.Allows made) : (w.call made).Faithful := by
  cases made with
  | setLine line => exact ⟨faithful.code, faithful.laid, faithful.fits⟩
  | emit op operand => exact faithful.emit rfl allowed
  | emitConstant k =>
      have small : (w.builder.addConstant k).1 < 65536 :=
        Nat.lt_of_lt_of_le (addConstant_lt w.builder k) allowed
      have fits : Opcode.constant.Fits (w.builder.addConstant k).1 :=
        ⟨Int.natCast_nonneg _, Int.ofNat_lt.mpr small⟩
      exact faithful.emit (addConstant_code w.builder k) fits
  | emitJump conditional width => exact faithful.emit rfl (Opcode.fits_zero _)
  | patchJump | patchJumpTo => exact faithful.call_of_patch? allowed rfl

theorem Faithful.calls {made : List Call} (faithful : w.Faithful) (allowed : w.AllowsAll made) :
    (w.calls made).Faithful := by
  induction made generalizing w with
  | nil => exact faithful
  | cons first rest ih => exact ih (faithful.call allowed.1) allowed.2

theorem allowsAll_append {earlier later : List Call} :
    w.AllowsAll (earlier ++ later) ↔ w.AllowsAll earlier ∧ (w.calls earlier).AllowsAll later := by
  induction earlier generalizing w with
  | nil => exact ⟨fun allowed => ⟨trivial, allowed⟩, fun allowed => allowed.2⟩
  | cons first rest ih =>
      rw [List.cons_append, AllowsAll, AllowsAll, ih, and_assoc]
      rfl

theorem visitFrom_of_bytes {c : Chunk} (before : List UInt8) {emitted : List Emitted}
    (code : c.code.entries.toList = before ++ emitted.flatMap Emitted.bytes)
    (laid : Emitted.Laid before.length emitted) (fits : ∀ e ∈ emitted, e.op.Fits e.shown) :
    c.visitFrom before.length = some (emitted.map fun e => (e.offset, ⟨e.op, e.shown⟩)) := by
  -- What has been read moves over to `before`, so the induction is on what is still to come.
  induction emitted generalizing before with
  | nil =>
      apply Chunk.visitFrom_end
      rw [Chunk.codeSize, ← Array.length_toList, code]
      simp
  | cons e rest ih =>
      rw [List.flatMap_cons, ← List.append_assoc] at code
      rw [List.forall_mem_cons] at fits
      obtain ⟨byte, read⟩ := Chunk.operand?_of_bytes code fits.1
      have behind : before.length + e.op.length = (before ++ e.bytes).length := by
        rw [List.length_append, Emitted.length_bytes]
      have tail := ih _ code (behind ▸ laid.2) fits.2
      rw [Chunk.visitFrom_of_operand? byte read, behind, tail, List.map_cons, laid.1]
      rfl

theorem Faithful.visits (faithful : w.Faithful) :
    ∃ visited, w.builder.chunk.visitFrom 0 = some visited ∧
      List.Forall₂ Emitted.ReadAs w.emitted visited := by
  refine ⟨_, visitFrom_of_bytes [] faithful.code faithful.laid faithful.fits, ?_⟩
  rw [List.forall₂_map_right_iff, List.forall₂_same]
  intro e _
  refine ⟨rfl, rfl, fun given => ?_, fun target patched => ?_⟩
  · simp only [Emitted.shown, given]
  · simp only [Emitted.shown, patched]
    omega

/-- Whatever calls are made of a new builder, operands and jumps being in range, its code reads back: from offset
zero on, instruction by instruction, it is what was emitted in that order and at those offsets. Operands are as
given, and a jump that was patched lands where it was last made to. A patch writes the operand bytes of its
jump and nothing else, and one that is refused leaves everything as it was. -/
theorem built_code_reads_back (made : List Call) (allowed : AllowsAll {} made) :
    (∃ visited, (calls {} made).builder.chunk.visitFrom 0 = some visited ∧
      List.Forall₂ Emitted.ReadAs (calls {} made).emitted visited) ∧
    ∀ earlier patch later, made = earlier ++ patch :: later →
      ∀ at_ target, (calls {} earlier).builder.patch? patch = some (at_, target) →
        ∃ e ∈ (calls {} earlier).emitted, at_ = e.offset ∧
          match (calls {} earlier).builder.answer patch with
          | .ok b => (calls {} (earlier ++ [patch])).builder = b ∧
              Opcode.jumpWidth (target - (e.offset + e.op.length)) ≤ e.op.width ∧
              (calls {} earlier).builder.Patches (e.offset + 1) e.op.width b
          | .error _ => calls {} (earlier ++ [patch]) = calls {} earlier ∧
              e.op.width < Opcode.jumpWidth (target - (e.offset + e.op.length)) := by
  refine ⟨(start_faithful.calls allowed).visits, ?_⟩
  rintro earlier patch later rfl at_ target patches
  obtain ⟨before, allows, _⟩ := allowsAll_append.mp allowed
  obtain ⟨answer, _⟩ := answer_of_patch? patches
  obtain ⟨e, member, offset, outcome⟩ :=
    (start_faithful.calls before).patch_cases (allows.reaches patches)
  have last : calls {} (earlier ++ [patch]) = (calls {} earlier).call patch := by
    rw [calls, List.foldl_append]
    rfl
  refine ⟨e, member, offset, ?_⟩
  rw [last, Making.call, answer]
  rcases outcome with ⟨b, ok, wide, patched, _⟩ | ⟨error, refused, narrow⟩
  · rw [ok]
    exact ⟨rfl, wide, patched⟩
  · rw [refused]
    exact ⟨rfl, narrow⟩

/-- A short jump over three instructions and a longer one back. The short one cannot be made to land as far as is
tried last, and the longer one is patched twice. -/
def detour : List Call :=
  [.setLine 3, .emitJump true 1, .emitConstant (Literal.constant (.bool true)), .emit .pop 0,
    .emitJump false 2, .patchJump 0, .patchJumpTo 6 0, .patchJumpTo 6 2, .patchJumpTo 0 5000]

theorem built_code_reads_back_of_detour :
    AllowsAll {} detour ∧
    ∃ visited, (calls {} detour).builder.chunk.visitFrom 0 = some visited ∧
      List.Forall₂ Emitted.ReadAs
        [⟨0, .jumpIfFalse8, 0, some 9⟩, ⟨2, .constant, 0, none⟩, ⟨5, .pop, 0, none⟩,
          ⟨6, .jump16, 0, some 2⟩] visited := by
  have allowed : AllowsAll {} detour := by decide +kernel
  have emitted : (calls {} detour).emitted = [⟨0, .jumpIfFalse8, 0, some 9⟩, ⟨2, .constant, 0, none⟩,
      ⟨5, .pop, 0, none⟩, ⟨6, .jump16, 0, some 2⟩] := by decide +kernel
  rw [← emitted]
  exact ⟨allowed, (built_code_reads_back detour allowed).1⟩

end Making

end TableMachine
