import TableMachine.Proofs.Building
import TableMachine.Proofs.MemoKeys
import TableMachine.Proofs.Transition

/-! # Emitted instructions and the constants they load

An operand is written in as many bytes as its opcode has for it, so an instruction is read with what these bytes keep
of the operand. For the instruction that loads a constant this matters: two bytes number the first 65536 entries of a
pool, and a pool may hold more. An instruction that was emitted for a later entry loads an earlier one, and nothing is
reported. Up to there interning, numbering and loading agree, whatever the pool holds.
-/

namespace TableMachine

/-! ## Operands cut to a width -/

namespace Opcode

variable {op : Opcode} {operand : Int} {byte : UInt8}

/-- What the operand bytes of an opcode keep of an operand. -/
def cut (op : Opcode) (operand : Int) : Int :=
  if op.isSigned then Int.bmod operand (pow256 op.width) else operand % pow256 op.width

theorem fits_bmod (signed : op.isSigned = true) (operand : Int) :
    op.Fits (Int.bmod operand (pow256 op.width)) := by
  have room : 0 < pow256 op.width := Nat.pow_pos (by decide)
  have low := Int.le_bmod (x := operand) room
  have high := Int.bmod_lt (x := operand) room
  simp only [Fits, signed, if_true]
  omega

theorem cut_eq_self_iff : op.cut operand = operand ↔ op.Fits operand := by
  have room : 0 < pow256 op.width := Nat.pow_pos (by decide)
  cases signed : op.isSigned with
  | true =>
      simp only [cut, signed, if_true]
      constructor
      · intro same
        rw [← same]
        exact fits_bmod signed operand
      · intro fits
        simp only [Fits, signed, if_true] at fits
        apply Int.bmod_eq_of_le_mul_two <;> omega
  | false =>
      simp only [cut, Fits, signed, Bool.false_eq_true, if_false]
      constructor
      · intro same
        rw [← same]
        exact ⟨Int.emod_nonneg _ (by omega), Int.emod_lt_of_pos _ (by omega)⟩
      · intro fits
        exact Int.emod_eq_of_lt fits.1 fits.2

theorem eq_toByte_of_ofByte? (found : ofByte? byte = some op) : byte = op.toByte := by
  unfold ofByte? at found
  split at found <;> cases found <;> rfl

end Opcode

namespace Chunk

variable {c : Chunk} {offset : Nat} {i : Instruction} {op : Opcode} {before bytes after : List UInt8}

theorem decodeOperand_eq_cut (op : Opcode) (operand : Int) :
    decodeOperand op.isSigned (operandBytes op.width operand) = op.cut operand := by
  simp only [decodeOperand, length_operandBytes, unsignedOf_operandBytes, Int.emod_bmod]
  rfl

theorem instruction?_of_bytes (code : c.code.entries.toList = before ++ op.toByte :: bytes ++ after)
    (width : bytes.length = op.width) :
    c.instruction? before.length = some ⟨op, decodeOperand op.isSigned bytes⟩ := by
  obtain ⟨byte, read⟩ := operandAt?_of_bytes code width
  simp only [instruction?, byte, Opcode.ofByte?_toByte, read, Option.bind_eq_bind, Option.bind_some]

theorem operand?_of_instruction? (found : c.instruction? offset = some i) :
    c.operand? offset = some i.operand := by
  obtain ⟨byte, bytes, present, known, complete, operand, _⟩ := instruction?_eq_some found
  simp only [operand?, Int.toNat_natCast, present, known, complete, Option.map_some, operand]
  exact if_neg (by omega)

/-- An instruction that is read stands in the code with its operand bytes, and is what they decode to. -/
theorem bytes_of_instruction? (found : c.instruction? offset = some i) :
    ∃ before bytes after, c.code.entries.toList = before ++ i.op.toByte :: bytes ++ after ∧
      before.length = offset ∧ bytes.length = i.op.width ∧
      i.operand = decodeOperand i.op.isSigned bytes := by
  obtain ⟨byte, read, present, known, complete, operand, _, size⟩ := instruction?_eq_some found
  rw [codeSize, ← Array.length_toList] at size
  rw [Opcode.eq_toByte_of_ofByte? known, ← Array.getElem?_toList] at present
  obtain ⟨inside, first⟩ := List.getElem?_eq_some_iff.mp present
  have cut : c.code.entries.toList = c.code.entries.toList.take offset ++
      i.op.toByte :: (c.code.entries.toList.drop (offset + 1)).take i.op.width ++
        (c.code.entries.toList.drop (offset + 1)).drop i.op.width := by
    rw [List.append_assoc, List.cons_append, List.take_append_drop, ← first, ← List.drop_eq_getElem_cons,
      List.take_append_drop]
  have start : (c.code.entries.toList.take offset).length = offset := by
    rw [List.length_take]
    omega
  have width : ((c.code.entries.toList.drop (offset + 1)).take i.op.width).length = i.op.width := by
    rw [List.length_take, List.length_drop]
    unfold Opcode.length at size
    omega
  have again := (operandAt?_of_bytes cut width).2
  rw [start, complete, Option.some.injEq] at again
  exact ⟨_, _, _, cut, start, width, again ▸ operand⟩

end Chunk

/-! ## Constants that serve for each other -/

theorem Number.equals_iff_eq_or_zero {x y : Number} :
    x.equals y = true ↔ y.isNaN = false ∧ (x = y ∨ x.isZero = true ∧ y.isZero = true) := by
  have zero_real {x : Number} (null : x.isZero = true) : x.isNaN = false := by
    simp only [isZero, decide_eq_true_eq] at null
    simp [isNaN, null, infinityMagnitude]
  constructor
  · intro same
    have real : x.isNaN = false ∧ y.isNaN = false := by
      simp only [equals, Bool.and_eq_true, Bool.not_eq_true'] at same
      exact same.1
    refine ⟨real.2, ?_⟩
    rw [equals_iff real.1 real.2] at same
    by_cases first : x.isZero = true <;> by_cases second : y.isZero = true
    · exact .inr ⟨first, second⟩
    · rw [if_pos first, if_neg second] at same
      rw [← same] at second
      exact absurd rfl second
    · rw [if_neg first, if_pos second] at same
      rw [same] at first
      exact absurd rfl first
    · rw [if_neg first, if_neg second] at same
      exact .inl same
  · rintro ⟨real, rfl | ⟨first, second⟩⟩
    · exact (equals_iff real real).mpr rfl
    · rw [equals_iff (zero_real first) real, if_pos first, if_pos second]

namespace Constant

variable {k k' : Constant}

/-- The entries have the same tag and the same fields, but a zero may have either sign. -/
structure Matches (k' k : Constant) : Prop where
  tag : k'.tag = k.tag
  number : k'.number = k.number ∨ k'.number.isZero = true ∧ k.number.isZero = true
  text : k'.text = k.text
  flag : k'.flag = k.flag
  index : k'.index = k.index

theorem matches_self (k : Constant) : k.Matches k := ⟨rfl, .inl rfl, rfl, rfl, rfl⟩

theorem same_iff_matches : k'.same k = true ↔ k.number.isNaN = false ∧ k'.Matches k := by
  simp only [same, Bool.and_eq_true, beq_iff_eq, Number.equals_iff_eq_or_zero]
  constructor
  · rintro ⟨⟨⟨⟨tag, real, number⟩, text⟩, flag⟩, index⟩
    exact ⟨real, tag, number, text, flag, index⟩
  · rintro ⟨real, tag, number, text, flag, index⟩
    exact ⟨⟨⟨⟨tag, real, number⟩, text⟩, flag⟩, index⟩

end Constant

/-! ## Interning -/

namespace Builder

def pool (b : Builder) : List Constant := b.chunk.constants.entries.toList

/-- The pool keeps its entries. At the position that is answered stands a constant that matches, and the first one. -/
theorem addConstant_interns (b : Builder) (k : Constant) :
    b.pool <+: (b.addConstant k).2.pool ∧
    (∃ k', (b.addConstant k).2.pool[(b.addConstant k).1]? = some k' ∧ k'.Matches k) ∧
    ∀ p < (b.addConstant k).1, ∀ e, (b.addConstant k).2.pool[p]? = some e → e.same k = false := by
  unfold addConstant pool
  dsimp only
  split
  · rename_i p found
    obtain ⟨inside, serves, first⟩ := Array.findIdx?_eq_some_iff_getElem.mp found
    refine ⟨List.prefix_rfl, ⟨_, ?_, (Constant.same_iff_matches.mp serves).2⟩, ?_⟩
    · rw [Array.getElem?_toList, Array.getElem?_eq_getElem inside]
    · intro q earlier e present
      rw [Array.getElem?_toList] at present
      obtain ⟨_, rfl⟩ := Array.getElem?_eq_some_iff.mp present
      exact Bool.eq_false_iff.mpr (first q earlier)
  · rename_i absent
    have none_serves := Array.findIdx?_eq_none_iff.mp absent
    have pushed : (Section.entries (some (b.chunk.constants.entries.push k))).toList =
        b.chunk.constants.entries.toList ++ [k] := Array.toList_push
    rw [pushed]
    refine ⟨List.prefix_append _ _, ⟨k, ?_, k.matches_self⟩, ?_⟩
    · rw [← Array.length_toList]
      exact List.getElem?_concat_length
    · intro q earlier e present
      rw [List.getElem?_append_left earlier, Array.getElem?_toList] at present
      exact none_serves e (Array.mem_of_getElem? present)

theorem instruction?_emit (b : Builder) (op : Opcode) (operand : Int) :
    (b.emit op operand).chunk.instruction? b.offset = some ⟨op, op.cut operand⟩ := by
  have code : (b.emit op operand).chunk.code.entries.toList =
      b.code.toList ++ op.toByte :: Chunk.operandBytes op.width operand ++ [] := by
    rw [List.append_nil]
    exact toList_emit b op operand
  rw [← Chunk.decodeOperand_eq_cut]
  exact Chunk.instruction?_of_bytes code (Chunk.length_operandBytes _ _)

end Builder

/-! ## Loading -/

namespace Chunk

variable {c c' : Chunk} {offset : Nat} {i : Instruction}

/-- The other chunk has the code and the constants of this one, and may go on. -/
structure Begins (c c' : Chunk) : Prop where
  code : c.code.entries.toList <+: c'.code.entries.toList
  constants : c.constants.entries.toList <+: c'.constants.entries.toList

/-- A machine that comes to the offset puts the value on its stack and goes on behind the instruction there, in this
chunk and in any that was built from it. -/
def Pushes (c : Chunk) (offset : Nat) (v : Value) : Prop :=
  ∀ (s : Setup) (m : Machine) (frame : Frame), m.frames.top? = some frame → c.Begins frame.chunk →
    frame.ip = offset → ∃ i, m.Fetches frame i ∧ m.step s = .next ((m.fetched frame i).push v)

theorem Begins.instruction? (begins : c.Begins c') (found : c.instruction? offset = some i) :
    c'.instruction? offset = some i := by
  obtain ⟨before, bytes, after, code, rfl, width, operand⟩ := bytes_of_instruction? found
  obtain ⟨rest, more⟩ := begins.code
  rw [code, List.append_assoc] at more
  have read := instruction?_of_bytes more.symm width
  rwa [← operand] at read

theorem pushes_of_constant {p : Nat} {k : Constant}
    (found : c.instruction? offset = some ⟨.constant, p⟩)
    (present : c.constants.entries.toList[p]? = some k) : c.Pushes offset k.value := by
  intro s m frame top begins ip
  have fetches : m.Fetches frame ⟨.constant, p⟩ := by
    refine ⟨top, ?_, ?_⟩
    · omega
    · rw [ip, Int.toNat_natCast]
      exact begins.instruction? found
  have entry : frame.chunk.constants.entries[p]? = some k := by
    obtain ⟨rest, more⟩ := begins.constants
    have inside := (List.getElem?_eq_some_iff.mp present).1
    rw [← Array.getElem?_toList, ← more, List.getElem?_append_left inside, present]
  have done : (m.fetched frame ⟨.constant, p⟩).execute s frame .constant p =
      .done ((m.fetched frame ⟨.constant, p⟩).push k.value) := by
    simp only [Machine.execute, Int.toNat_natCast, entry]
  have executes : m.Executes s frame ⟨.constant, p⟩ _ := ⟨fetches, Nat.zero_le _, done⟩
  exact ⟨_, fetches, executes.steps⟩

theorem Pushes.start {v : Value} (pushes : c.Pushes 0 v) (s : Setup) (m : Machine) :
    ∃ m', (m.start c).step s = .next m' ∧ m'.stack.items = [v] := by
  obtain ⟨i, _, stepped⟩ := pushes s (m.start c) (.root c) rfl ⟨List.prefix_rfl, List.prefix_rfl⟩ rfl
  exact ⟨_, stepped, rfl⟩

end Chunk

namespace Builder

/-- Emitting a constant keeps the pool, and the new instruction loads the entry whose number is left of the
constant's own one in two bytes. Below 65536 that is the constant's own entry, and it matches. From there on it is an
earlier entry, which does not match, for an earlier one that did would have been taken. (A constant that is not a
number is never taken for another, so then two entries may match.) -/
theorem emitConstant_loads (b : Builder) (k : Constant) :
    b.pool <+: (b.emitConstant k).pool ∧
    ∃ loaded, (b.emitConstant k).pool[(b.addConstant k).1 % 65536]? = some loaded ∧
      (b.emitConstant k).chunk.Pushes b.offset loaded.value ∧
      ((b.addConstant k).1 < 65536 → loaded.Matches k) ∧
      (loaded.Matches k → k.number.isNaN = false → (b.addConstant k).1 < 65536) := by
  obtain ⟨kept, ⟨own, present, serves⟩, first⟩ := b.addConstant_interns k
  have offset : (b.addConstant k).2.offset = b.offset := congrArg Array.size (b.addConstant_code k)
  have inside := (List.getElem?_eq_some_iff.mp present).1
  have reachable := Nat.lt_of_le_of_lt (Nat.mod_le _ 65536) inside
  obtain ⟨loaded, entry⟩ : ∃ loaded, (b.emitConstant k).pool[(b.addConstant k).1 % 65536]? = some loaded :=
    ⟨_, List.getElem?_eq_getElem reachable⟩
  have found := instruction?_emit (b.addConstant k).2 .constant (b.addConstant k).1
  have operand : Opcode.constant.cut (b.addConstant k).1 = ((b.addConstant k).1 % 65536 : Nat) := rfl
  rw [offset, operand] at found
  refine ⟨kept, loaded, entry, Chunk.pushes_of_constant found entry, ?_, ?_⟩
  · intro small
    rw [Nat.mod_eq_of_lt small] at entry
    cases entry.symm.trans present
    exact serves
  · intro served real
    by_contra beyond
    have earlier : (b.addConstant k).1 % 65536 < (b.addConstant k).1 := by omega
    have other := first _ earlier loaded entry
    rw [Constant.same_iff_matches.mpr ⟨real, served⟩] at other
    cases other

end Builder

/-! ## A pool with one constant too many

A truth value is emitted after some nulls. If these are 65536, the instruction loads the first of them.
-/

namespace Crowd

open Builder

def builder (count : Nat) : Builder :=
  { chunk := { Chunk.empty with constants := some (Array.replicate count (Literal.constant .null)) } }

def truth : Constant := Literal.constant (.bool true)

def setup (count : Nat) : Setup where
  config := {}
  natives := #[]
  loaded := ⟨0, ⟨some ((builder count).emitConstant truth).chunk, #[]⟩⟩

def machine : Machine := .new { heap := {}, files := .empty [] }

theorem addConstant_eq (count : Nat) : ((builder count).addConstant truth).1 = count ∧
    ((builder count).emitConstant truth).pool =
      List.replicate count (Literal.constant .null) ++ [truth] := by
  have absent : (builder count).chunk.constants.entries.findIdx? (·.same truth) = none := by
    rw [Array.findIdx?_eq_none_iff]
    intro k member
    rw [Array.eq_of_mem_replicate member]
    rfl
  have pool : ((builder count).addConstant truth).2.pool =
      List.replicate count (Literal.constant .null) ++ [truth] := by
    simp only [addConstant, absent]
    simp [Builder.pool, Section.entries, builder]
  refine ⟨?_, pool⟩
  simp only [addConstant, absent]
  exact Array.size_replicate

end Crowd

theorem Builder.emitConstant_loads_of_crowd :
    ((Crowd.builder 65536).emitConstant Crowd.truth).pool[65536]? = some Crowd.truth ∧
    ∃ m, (Crowd.machine.start ((Crowd.builder 65536).emitConstant Crowd.truth).chunk).step (Crowd.setup 65536) =
        .next m ∧ m.stack.items = [.null] := by
  obtain ⟨position, pool⟩ := Crowd.addConstant_eq 65536
  obtain ⟨_, loaded, entry, pushes, _, _⟩ := emitConstant_loads (Crowd.builder 65536) Crowd.truth
  constructor
  · rw [pool, List.getElem?_append_right (Nat.le_of_eq List.length_replicate), List.length_replicate,
      Nat.sub_self]
    rfl
  · have first : 0 < (List.replicate 65536 (Literal.constant .null)).length := by
      rw [List.length_replicate]
      decide
    rw [pool, position, Nat.mod_self, List.getElem?_append_left first, List.getElem?_replicate,
      if_pos (by decide)] at entry
    cases entry
    exact pushes.start (Crowd.setup 65536) Crowd.machine

end TableMachine
