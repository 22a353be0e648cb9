import TableMachine.Proofs.Emitting

/-! # How far jumps reach

A jump moves the pointer by a distance of one, two or four bytes, read with a sign. Patching refuses a distance that
one or two bytes cannot hold, and leaves the code as it was. Four bytes are taken to hold every distance: there the
patch is made, but a jump over more than 32 bits does not land on its target. A jump back is emitted with the fewest
bytes that reach the target. The distance is counted from the end of the jump, so each width is tried with its own.
-/

namespace TableMachine

namespace Opcode

variable {op : Opcode} {distance : Int}

theorem width_of_isJump (jump : op.isJump = true) : op.width = 1 ∨ op.width = 2 ∨ op.width = 4 := by
  cases op <;> first | decide | cases jump

theorem jump_of_unconditional (jump : op.isJump = true) (unconditional : op.isConditionalJump = false) :
    op = .jump8 ∨ op = .jump16 ∨ op = .jump32 := by
  cases op <;> first | decide | exact absurd jump (by decide) | exact absurd unconditional (by decide)

/-- A jump is found wide enough if the distance fits, and the widest jumps always are. -/
theorem jumpWidth_le_iff (jump : op.isJump = true) :
    jumpWidth distance ≤ op.width ↔ op.width = 4 ∨ op.Fits distance := by
  have signed : op.isSigned = true := jump
  simp only [Fits, signed, if_true]
  unfold jumpWidth
  rcases width_of_isJump jump with width | width | width
  · simp only [width, Nat.pow_eq, Nat.reducePow]
    split
    · omega
    · split <;> omega
  · simp only [width, Nat.pow_eq, Nat.reducePow]
    split
    · omega
    · split <;> omega
  · refine iff_of_true ?_ (.inl width)
    rw [width]
    split
    · decide
    · split <;> decide

end Opcode

theorem Chunk.fits_of_instruction? {c : Chunk} {offset : Nat} {i : Chunk.Instruction}
    (found : c.instruction? offset = some i) (jump : i.op.isJump = true) : i.op.Fits i.operand := by
  obtain ⟨_, bytes, _, _, _, operand, width, _⟩ := instruction?_eq_some found
  have signed : i.op.isSigned = true := jump
  rw [operand, decodeOperand, signed, if_pos rfl, width]
  exact Opcode.fits_bmod signed _

/-! ## Patching -/

namespace Builder

variable {op : Opcode} {at_ : Nat} {target : Int}

theorem distance_eq_bmod (op : Opcode) (at_ : Nat) (target : Int) :
    distance at_ op.width target = Int.bmod (target - (at_ + op.length)) (pow2 64) := by
  have same : target - ((at_ : Int) + 1 + op.width) = target - (at_ + op.length) := by
    unfold Opcode.length
    omega
  rw [distance, same]

theorem distance_eq (low : -2 ^ 63 ≤ target - (at_ + op.length)) (high : target - (at_ + op.length) < 2 ^ 63) :
    distance at_ op.width target = target - (at_ + op.length) := by
  have word : (pow2 64 : Int) = 2 ^ 64 := rfl
  rw [distance_eq_bmod]
  apply Int.bmod_eq_of_le_mul_two <;> omega

/-- In 64 bits a distance that is out of range does not become one that fits in two bytes, unless the code is as long
as these bits can number. -/
theorem fits_distance_iff (jump : op.isJump = true) (narrow : op.width ≠ 4)
    (room : at_ + op.length + 2 ^ 15 ≤ 2 ^ 63) (low : -2 ^ 63 ≤ target) (high : target < 2 ^ 63) :
    op.Fits (distance at_ op.width target) ↔ op.Fits (target - (at_ + op.length)) := by
  by_cases near : -2 ^ 63 ≤ target - ((at_ : Int) + op.length)
  · rw [distance_eq near (by omega)]
  · -- The difference wraps once, to a number too large for two bytes.
    have wrapped : distance at_ op.width target = target - (at_ + op.length) + 2 ^ 64 := by
      have word : (pow2 64 : Int) = 2 ^ 64 := rfl
      rw [distance_eq_bmod, ← Int.add_bmod_right]
      apply Int.bmod_eq_of_le_mul_two <;> omega
    have signed : op.isSigned = true := jump
    rw [wrapped]
    simp only [Opcode.Fits, signed, if_true]
    rcases Opcode.width_of_isJump jump with width | width | width
    · simp only [width, Nat.pow_eq, Nat.reducePow]
      omega
    · simp only [width, Nat.pow_eq, Nat.reducePow]
      omega
    · exact absurd width narrow

theorem cut_distance (jump : op.isJump = true) :
    op.cut (distance at_ op.width target) = op.cut (target - (at_ + op.length)) := by
  have signed : op.isSigned = true := jump
  have divides : pow256 op.width ∣ pow2 64 := by
    rcases Opcode.width_of_isJump jump with width | width | width <;> rw [width] <;> decide
  rw [distance_eq_bmod, Opcode.cut, Opcode.cut, if_pos signed, if_pos signed, Int.bmod_bmod_of_dvd divides]

theorem patchJumpTo_of_instruction? {b : Builder} {i : Chunk.Instruction}
    (found : b.chunk.instruction? at_ = some i) (jump : i.op.isJump = true) (target : Int) :
    b.patchJumpTo at_ target =
      if i.op.width < Opcode.jumpWidth (distance at_ i.op.width target) then
        .error (.tooFar at_ (distance at_ i.op.width target) i.op)
      else .ok (b.patched ⟨at_, i.op, i.operand, none⟩ (distance at_ i.op.width target)) := by
  obtain ⟨byte, _, present, known, _, _, _, size⟩ := Chunk.instruction?_eq_some found
  rw [Opcode.eq_toByte_of_ofByte? known] at present
  exact patchJumpTo_eq (e := ⟨at_, i.op, i.operand, none⟩) present size jump

/-- An instruction whose operand is written anew is read with what its bytes keep of the operand. -/
theorem instruction?_patched {b : Builder} {i : Chunk.Instruction} (found : b.chunk.instruction? at_ = some i)
    (operand : Int) :
    (b.patched ⟨at_, i.op, i.operand, none⟩ operand).chunk.instruction? at_ = some ⟨i.op, i.op.cut operand⟩ := by
  obtain ⟨before, bytes, after, code, rfl, width, _⟩ := Chunk.bytes_of_instruction? found
  -- The opcode stays, so it goes with the bytes before those that are overwritten.
  have opened : b.code.toList = (before ++ [i.op.toByte]) ++ bytes ++ after := by
    rw [List.append_assoc before]
    exact code
  have same := width.trans (Chunk.length_operandBytes i.op.width operand).symm
  have written := toList_overwrite opened same
  rw [List.length_append, List.length_singleton, List.append_assoc before] at written
  rw [← Chunk.decodeOperand_eq_cut]
  exact Chunk.instruction?_of_bytes written (Chunk.length_operandBytes _ _)

end Builder

namespace Making

open Builder

/-- What patching a jump answers, wherever it stands and whatever the target. A jump of one byte or of two is patched
if and only if the distance fits, one of four always. The operand of a patched jump is written and nothing else, and
the jump lands on the target if and only if the distance fits. A refusal says that the target is too far, and after it
all is as before. -/
theorem patch_answers_by_width {w : Making} {at_ : Nat} {i : Chunk.Instruction} (target : Int)
    (found : w.builder.chunk.instruction? at_ = some i) (jump : i.op.isJump = true)
    (room : w.builder.offset + 2 ^ 15 ≤ 2 ^ 63) (low : -2 ^ 63 ≤ target) (high : target < 2 ^ 63) :
    ((∃ b, w.builder.patchJumpTo at_ target = .ok b) ↔
      i.op.width = 4 ∨ i.op.Fits (target - (at_ + i.op.length))) ∧
    (∀ b, w.builder.patchJumpTo at_ target = .ok b →
      w.builder.Patches (at_ + 1) i.op.width b ∧
      ∃ operand, b.chunk.instruction? at_ = some ⟨i.op, operand⟩ ∧
        (at_ + i.op.length + operand = target ↔ i.op.Fits (target - (at_ + i.op.length)))) ∧
    ∀ error, w.builder.patchJumpTo at_ target = .error error →
      error = .tooFar at_ (distance at_ i.op.width target) i.op ∧ w.call (.patchJumpTo at_ target) = w := by
  obtain ⟨_, _, _, _, _, _, _, size⟩ := Chunk.instruction?_eq_some found
  have inside : at_ + i.op.length ≤ w.builder.offset := size
  have answer := patchJumpTo_of_instruction? found jump target
  have wide : Opcode.jumpWidth (distance at_ i.op.width target) ≤ i.op.width ↔
      i.op.width = 4 ∨ i.op.Fits (target - (at_ + i.op.length)) := by
    rw [Opcode.jumpWidth_le_iff jump]
    by_cases widest : i.op.width = 4
    · exact iff_of_true (.inl widest) (.inl widest)
    · rw [fits_distance_iff jump widest (by omega) low high]
  split at answer
  · rename_i far
    refine ⟨iff_of_false ?_ ?_, ?_, ?_⟩
    · rintro ⟨b, ok⟩
      cases answer.symm.trans ok
    · intro reaches
      exact absurd (wide.mpr reaches) (Nat.not_le.mpr far)
    · intro b ok
      cases answer.symm.trans ok
    · intro error refused
      cases answer.symm.trans refused
      exact ⟨rfl, by simp only [call, Builder.answer, refused]⟩
  · rename_i near
    refine ⟨iff_of_true ⟨_, answer⟩ (wide.mp (Nat.not_lt.mp near)), ?_, ?_⟩
    · intro b ok
      cases answer.symm.trans ok
      refine ⟨patched_patches _ ⟨at_, i.op, i.operand, none⟩ _, _, instruction?_patched found _, ?_⟩
      rw [cut_distance jump, ← Opcode.cut_eq_self_iff]
      omega
    · intro error refused
      cases answer.symm.trans refused

/-- A jump of two bytes, and behind it one of four. -/
def hurdles : Making := calls {} [.emitJump true 2, .emitJump false 4]

/-- The jump of two bytes is patched as far as these reach and no further. That of four is patched further than it
reaches. -/
theorem patch_answers_by_width_of_hurdles :
    (∃ b, hurdles.builder.patchJumpTo 0 32770 = .ok b) ∧
    hurdles.call (.patchJumpTo 0 32771) = hurdles ∧
    ∃ b operand, hurdles.builder.patchJumpTo 3 2147483656 = .ok b ∧
      b.chunk.instruction? 3 = some ⟨.jump32, operand⟩ ∧ 3 + 5 + operand ≠ 2147483656 := by
  have short : hurdles.builder.chunk.instruction? 0 = some ⟨.jumpIfFalse16, 0⟩ := by decide +kernel
  have long : hurdles.builder.chunk.instruction? 3 = some ⟨.jump32, 0⟩ := by decide +kernel
  have room : hurdles.builder.offset + 2 ^ 15 ≤ 2 ^ 63 := by decide +kernel
  refine ⟨?_, ?_, ?_⟩
  · exact (patch_answers_by_width 32770 short rfl room (by decide) (by decide)).1.mpr (.inr (by decide))
  · obtain ⟨accepts, _, refuses⟩ := patch_answers_by_width 32771 short rfl room (by decide) (by decide)
    cases answer : hurdles.builder.patchJumpTo 0 32771 with
    | ok b => exact absurd (accepts.mp ⟨b, answer⟩) (by decide)
    | error error => exact (refuses error answer).2
  · obtain ⟨accepts, lands, _⟩ :=
      patch_answers_by_width 2147483656 long rfl room (by decide) (by decide)
    obtain ⟨b, ok⟩ := accepts.mpr (.inl rfl)
    obtain ⟨_, operand, read, reaches⟩ := lands b ok
    exact ⟨b, operand, ok, read, fun landed => absurd (reaches.mp landed) (by decide)⟩

end Making

/-! ## Jumping back -/

namespace Builder

variable {b b' : Builder} {op : Opcode} {target : Int}

/-- The instruction is an unconditional jump that was appended to the code and lands on the target. In no chunk does a
narrower unconditional jump at its offset land there. -/
structure JumpsBack (b : Builder) (target : Int) (b' : Builder) (i : Chunk.Instruction) : Prop where
  jump : i.op.isJump = true
  unconditional : i.op.isConditionalJump = false
  code : b'.code.toList = b.code.toList ++ i.op.toByte :: Chunk.operandBytes i.op.width i.operand
  read : b'.chunk.instruction? b.offset = some i
  operand : b'.chunk.operand? b.offset = some i.operand
  lands : b.offset + i.op.length + i.operand = target
  narrowest : ∀ (c : Chunk) (j : Chunk.Instruction), c.instruction? b.offset = some j → j.op.isJump = true →
    j.op.isConditionalJump = false → b.offset + j.op.length + j.operand = target → i.op.width ≤ j.op.width

theorem emit_jumpsBack (op : Opcode) (jump : op.isJump = true) (unconditional : op.isConditionalJump = false)
    (fits : op.Fits (target - (b.offset + op.length)))
    (narrowest : ∀ narrow : Opcode, narrow.isJump = true → narrow.isConditionalJump = false →
      narrow.Fits (target - (b.offset + narrow.length)) → op.width ≤ narrow.width) :
    b.JumpsBack target (b.emit op (target - (b.offset + op.length))) ⟨op, target - (b.offset + op.length)⟩ := by
  have read := instruction?_emit b op (target - (b.offset + op.length))
  rw [Opcode.cut_eq_self_iff.mpr fits] at read
  refine ⟨jump, unconditional, toList_emit _ _ _, read, Chunk.operand?_of_instruction? read, by dsimp only; omega, ?_⟩
  intro c j found jumps always lands
  have reached : j.operand = target - (b.offset + j.op.length) := by omega
  apply narrowest j.op jumps always
  rw [← reached]
  exact Chunk.fits_of_instruction? found jumps

/-- A jump back to any offset of the code lands there, and no narrower one could. -/
theorem emitLoop_lands_narrowly (target : Int) (small : b.offset ≤ 2 ^ 31 - 5) (low : 0 ≤ target) (high : target ≤ b.offset) :
    ∃ i, b.JumpsBack target (b.emitLoop target) i := by
  have far (op : Opcode) (short : op.width ≤ 4) :
      distance b.offset op.width target = target - (b.offset + op.length) := by
    have length : op.length ≤ 5 := Nat.add_le_add_left short 1
    apply distance_eq <;> omega
  have wide (op : Opcode) (jump : op.isJump = true) (short : op.width < 4) :
      Opcode.jumpWidth (distance b.offset op.width target) ≤ op.width ↔
        op.Fits (target - (b.offset + op.length)) := by
    rw [Opcode.jumpWidth_le_iff jump, far op (Nat.le_of_lt short)]
    exact or_iff_right (Nat.ne_of_lt short)
  have first := wide .jump8 rfl (by decide)
  have second := wide .jump16 rfl (by decide)
  have third : Opcode.jump32.Fits (target - (b.offset + Opcode.jump32.length)) := by
    show -(4294967296 : Int) ≤ 2 * (target - (b.offset + (5 : Nat))) ∧
      2 * (target - (b.offset + (5 : Nat))) < 4294967296
    omega
  unfold emitLoop
  dsimp only
  -- A width that is tried later is chosen only after the narrower jumps were found not to fit.
  split
  · rename_i near
    have reach : distance b.offset 1 target = _ := far .jump8 (by decide)
    rw [reach]
    refine ⟨_, emit_jumpsBack .jump8 rfl rfl (first.mp near) ?_⟩
    intro narrow jump always _
    rcases Opcode.jump_of_unconditional jump always with rfl | rfl | rfl <;> decide
  · rename_i far8
    split
    · rename_i near
      have reach : distance b.offset 2 target = _ := far .jump16 (by decide)
      rw [reach]
      refine ⟨_, emit_jumpsBack .jump16 rfl rfl (second.mp near) ?_⟩
      intro narrow jump always fits
      rcases Opcode.jump_of_unconditional jump always with rfl | rfl | rfl
      · exact absurd (first.mpr fits) far8
      · decide
      · decide
    · rename_i far16
      have reach : distance b.offset 4 target = _ := far .jump32 (by decide)
      rw [reach]
      refine ⟨_, emit_jumpsBack .jump32 rfl rfl third ?_⟩
      intro narrow jump always fits
      rcases Opcode.jump_of_unconditional jump always with rfl | rfl | rfl
      · exact absurd (first.mpr fits) far8
      · exact absurd (second.mpr fits) far16
      · decide

/-- Code of 127 bytes, one more than a jump of one byte can go back over. -/
def treadmill : Builder := { chunk := { Chunk.empty with code := some (Array.replicate 127 0) } }

theorem emitLoop_lands_narrowly_of_treadmill :
    treadmill.offset ≤ 2 ^ 31 - 5 ∧ treadmill.JumpsBack 0 (treadmill.emitLoop 0) ⟨.jump16, -130⟩ := by
  have offset : treadmill.offset = 127 := by decide +kernel
  have small : treadmill.offset ≤ 2 ^ 31 - 5 := by omega
  obtain ⟨i, back⟩ := emitLoop_lands_narrowly 0 small (by decide) (by omega)
  have read : (treadmill.emitLoop 0).chunk.instruction? treadmill.offset = some ⟨.jump16, -130⟩ := by
    decide +kernel
  cases back.read.symm.trans read
  exact ⟨small, back⟩

end Builder

end TableMachine
