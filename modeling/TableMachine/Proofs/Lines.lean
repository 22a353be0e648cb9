import Mathlib.Data.List.Chain
import TableMachine.Proofs.Building

/-! # The line of every byte

A chunk notes an offset and a line where the line changes, and finds the line of an offset by halving. This module
compares the two for every code that is built without patching: each byte is found to belong to the line that was
current when its instruction was emitted. Lines may come back, go backwards, be zero, or be set without an instruction
following; a table that notes changes only stays exact, since an entry is made at the end of the code and so never
reaches back to bytes that have their line already.
-/

namespace TableMachine

/-! ## Looking up a line -/

namespace Chunk

variable {lines : Array LineEntry} {offset : Int}

/-- The line of the last entry that does not begin after the offset, and zero if there is none. -/
def lineOf (entries : List LineEntry) (offset : Int) : Int :=
  ((entries.filter (·.offset ≤ offset)).getLast?.map LineEntry.line).getD 0

theorem lineOf_concat (entries : List LineEntry) (e : LineEntry) (offset : Int) :
    lineOf (entries ++ [e]) offset = if e.offset ≤ offset then e.line else lineOf entries offset := by
  unfold lineOf
  rw [List.filter_append]
  split
  · rename_i reached
    simp [reached]
  · rename_i beyond
    simp [beyond]

theorem lineOf_of_le {entries : List LineEntry} {last : LineEntry} (found : entries.getLast? = some last)
    (reached : ∀ e ∈ entries, e.offset ≤ offset) : lineOf entries offset = last.line := by
  have whole : entries.filter (·.offset ≤ offset) = entries := by
    rw [List.filter_eq_self]
    intro e member
    exact decide_eq_true (reached e member)
  rw [lineOf, whole, found]
  rfl

/-- Entries below the first position begin up to the offset, and those from the second position on begin after it. -/
structure Parts (lines : Array LineEntry) (offset : Int) (low high : Nat) : Prop where
  ordered : low ≤ high
  within_ : high ≤ lines.size
  before : ∀ n < low, (lines.getD n ⟨0, 0⟩).offset ≤ offset
  after : ∀ n, high ≤ n → n < lines.size → offset < (lines.getD n ⟨0, 0⟩).offset

theorem offset_lt_of_pairwise (increasing : lines.toList.Pairwise (·.offset < ·.offset)) {m n : Nat}
    (earlier : m < n) (inside : n < lines.size) :
    (lines.getD m ⟨0, 0⟩).offset < (lines.getD n ⟨0, 0⟩).offset := by
  have apart := List.pairwise_iff_getElem.mp increasing m n (by simp; omega) (by simpa) earlier
  simpa [Array.getD_eq_getD_getElem?, inside, Nat.lt_trans earlier inside] using apart

theorem parts_searchLine (increasing : lines.toList.Pairwise (·.offset < ·.offset)) {fuel low high : Nat}
    (parts : Parts lines offset low high) (enough : high - low < fuel) :
    Parts lines offset (searchLine lines offset fuel low high) (searchLine lines offset fuel low high) := by
  induction fuel generalizing low high with
  | zero => omega
  | succ fuel ih =>
      obtain ⟨ordered, within_, before, after⟩ := parts
      simp only [searchLine]
      -- The middle entry settles one half, since those before it begin earlier and those after it later.
      split
      · rename_i apart
        split
        · rename_i beyond
          apply ih
          · refine ⟨by omega, by omega, before, ?_⟩
            intro n from_ inside
            rcases Nat.eq_or_lt_of_le from_ with rfl | later
            · exact beyond
            · exact Int.lt_trans beyond (offset_lt_of_pairwise increasing later inside)
          · omega
        · rename_i reached
          apply ih
          · refine ⟨by omega, within_, ?_, after⟩
            intro n upTo
            rcases Nat.eq_or_lt_of_le (Nat.le_of_lt_succ upTo) with rfl | earlier
            · exact Int.not_lt.mp reached
            · have apart := offset_lt_of_pairwise increasing earlier (by omega)
              omega
          · omega
      · have same : high = low := by omega
        subst same
        exact ⟨ordered, within_, before, after⟩

theorem Parts.filter_eq {position : Nat} (parts : Parts lines offset position position) :
    lines.toList.filter (·.offset ≤ offset) = lines.toList.take position := by
  have first : (lines.toList.take position).filter (·.offset ≤ offset) = lines.toList.take position := by
    rw [List.filter_eq_self]
    intro e member
    obtain ⟨n, small, rfl⟩ := List.mem_take_iff_getElem.mp member
    have upTo := parts.before n (by omega)
    simpa [Array.getD_eq_getD_getElem?, show n < lines.size by simp at small; omega] using upTo
  have rest : (lines.toList.drop position).filter (·.offset ≤ offset) = [] := by
    rw [List.filter_eq_nil_iff]
    intro e member
    obtain ⟨n, inside, rfl⟩ := List.mem_drop_iff_getElem.mp member
    have beyond := parts.after (position + n) (by omega) (by simpa [Nat.add_comm] using inside)
    simpa [Array.getD_eq_getD_getElem?, Nat.add_comm, show position + n < lines.size by simp at inside; omega]
      using beyond
  rw [← List.take_append_drop position lines.toList, List.filter_append, first, rest, List.append_nil,
    List.take_append_drop]

theorem lineAt_eq_lineOf {c : Chunk} (increasing : c.lines.entries.toList.Pairwise (·.offset < ·.offset))
    (offset : Int) : c.lineAt offset = lineOf c.lines.entries.toList offset := by
  have whole : Parts c.lines.entries offset 0 c.lines.entries.size :=
    ⟨Nat.zero_le _, Nat.le_refl _, fun _ none => absurd none (Nat.not_lt_zero _), fun _ _ _ => by omega⟩
  have enough : c.lines.entries.size - 0 < c.lines.entries.size + 1 := Nat.lt_succ_self _
  have parts := parts_searchLine increasing whole enough
  unfold lineAt lineOf
  rw [parts.filter_eq]
  dsimp only
  split
  · rename_i none
    rw [none]
    rfl
  · rename_i n found
    have inside : n < c.lines.entries.size := by
      have bound := parts.within_
      omega
    rw [found, List.getLast?_take]
    simp [Array.getD_eq_getD_getElem?, inside]

/-- The length of an instruction that begins with the byte. One that is no opcode stands alone. -/
def instructionLength (byte : UInt8) : Nat :=
  match Opcode.ofByte? byte with
  | some op => op.length
  | none => 1

theorem instructionLength_toByte (op : Opcode) : instructionLength op.toByte = op.length := by
  simp only [instructionLength, Opcode.ofByte?_toByte]

theorem instructionLength_pos (byte : UInt8) : 0 < instructionLength byte := by
  unfold instructionLength
  split
  · exact Nat.lt_add_right _ Nat.one_pos
  · exact Nat.one_pos

end Chunk

namespace Builder

/-! ## Calls that write code -/

/-- A call that sets the line or appends an instruction. The byte emitted may be any. -/
inductive Writing where
  | setLine (line : Int)
  | emit (byte : UInt8) (operand : Int)
  | emitConstant (k : Constant)
  | emitJump (conditional : Bool) (width : Int)
  | emitLoop (target : Int)

def write (b : Builder) : Writing → Builder
  | .setLine line => b.setLine line
  | .emit byte operand => b.emitByte byte operand
  | .emitConstant k => b.emitConstant k
  | .emitJump conditional width => b.emitJump conditional width
  | .emitLoop target => b.emitLoop target

def writes (b : Builder) (made : List Writing) : Builder := made.foldl write b

def Writing.line? : Writing → Option Int
  | .setLine line => some line
  | _ => none

/-- The line that was set last, and zero before any was set. -/
def lastLine (made : List Writing) : Int := (made.filterMap Writing.line?).getLast?.getD 0

/-- Of the calls made, the one right after the earlier ones emitted the instruction that holds the byte at the offset:
it begins where these calls had come to, and ends where the call after them came to. -/
def Emits (made earlier : List Writing) (offset : Nat) : Prop :=
  ∃ call later byte, made = earlier ++ call :: later ∧
    (writes {} made).code[(writes {} earlier).offset]? = some byte ∧
    (writes {} (earlier ++ [call])).offset = (writes {} earlier).offset + Chunk.instructionLength byte ∧
    (writes {} earlier).offset ≤ offset ∧ offset < (writes {} (earlier ++ [call])).offset

variable {b b' : Builder} {made earlier later : List Writing} {call : Writing} {offset : Nat}

def lineEntries (b : Builder) : List LineEntry := b.chunk.lines.entries.toList

/-- One instruction is at the end of the code, and the current line was noted for it. -/
structure Extends (b b' : Builder) : Prop where
  code : ∃ byte operand, b'.code.toList = b.code.toList ++ byte :: operand ∧
    operand.length + 1 = Chunk.instructionLength byte
  lines : b'.chunk.lines = markLine b.chunk.lines b.offset b.line
  line : b'.line = b.line

theorem emit_extends (b : Builder) (op : Opcode) (operand : Int) : b.Extends (b.emit op operand) where
  code := by
    refine ⟨_, _, toList_emit b op operand, ?_⟩
    rw [Chunk.length_operandBytes, Chunk.instructionLength_toByte, Opcode.length, Nat.add_comm]
  lines := rfl
  line := rfl

theorem emitByte_extends (b : Builder) (byte : UInt8) (operand : Int) : b.Extends (b.emitByte byte operand) := by
  unfold emitByte
  split
  · exact emit_extends b _ operand
  · rename_i unknown
    refine ⟨⟨byte, [], toList_extend _ _, ?_⟩, rfl, rfl⟩
    simp only [Chunk.instructionLength, unknown, List.length_nil]

theorem emitConstant_extends (b : Builder) (k : Constant) : b.Extends (b.emitConstant k) := by
  have emitted := emit_extends (b.addConstant k).2 .constant (b.addConstant k).1
  have kept : (b.addConstant k).2.chunk.lines = b.chunk.lines ∧ (b.addConstant k).2.line = b.line := by
    unfold addConstant
    dsimp only
    split
    · exact ⟨rfl, rfl⟩
    · exact ⟨rfl, rfl⟩
  have code := b.addConstant_code k
  have offset : (b.addConstant k).2.offset = b.offset := congrArg Array.size code
  refine ⟨?_, ?_, ?_⟩
  · rw [← code]
    exact emitted.code
  · rw [← kept.1, ← kept.2, ← offset]
    exact emitted.lines
  · exact emitted.line.trans kept.2

theorem emitLoop_extends (b : Builder) (target : Int) : b.Extends (b.emitLoop target) := by
  unfold emitLoop
  dsimp only
  split
  · exact emit_extends b _ _
  · split <;> exact emit_extends b _ _

/-- A call sets the line or appends an instruction. -/
theorem write_cases (b : Builder) (call : Writing) :
    (∃ line, call.line? = some line ∧ b.write call = b.setLine line) ∨
      call.line? = none ∧ b.Extends (b.write call) := by
  cases call with
  | setLine line => exact .inl ⟨line, rfl, rfl⟩
  | emit byte operand => exact .inr ⟨rfl, emitByte_extends b byte operand⟩
  | emitConstant k => exact .inr ⟨rfl, emitConstant_extends b k⟩
  | emitJump conditional width => exact .inr ⟨rfl, emit_extends b _ _⟩
  | emitLoop target => exact .inr ⟨rfl, emitLoop_extends b target⟩

/-! ## What a table of lines says while code is written -/

/-- The noted lines begin within the code, each after the one before it and with another line. -/
structure Marked (b : Builder) : Prop where
  increasing : b.lineEntries.Pairwise (·.offset < ·.offset)
  changing : b.lineEntries.IsChain (·.line ≠ ·.line)
  within_ : ∀ e ∈ b.lineEntries, e.offset < b.offset

theorem start_marked : Marked {} := ⟨.nil, .nil, by simp [lineEntries, Chunk.empty, Section.entries]⟩

/-- The current line is noted unless the last entry has it. -/
theorem Extends.lineEntries_cases (extends_ : b.Extends b') :
    (b'.lineEntries = b.lineEntries ∧ ∃ last, b.lineEntries.getLast? = some last ∧ last.line = b.line) ∨
      b'.lineEntries = b.lineEntries ++ [⟨b.offset, b.line⟩] ∧
        ∀ last, b.lineEntries.getLast? = some last → last.line ≠ b.line := by
  unfold lineEntries
  rw [extends_.lines]
  unfold markLine
  simp only [← Array.getLast?_toList]
  split
  · rename_i last found
    split
    · rename_i same
      exact .inl ⟨rfl, last, found, same⟩
    · rename_i other
      refine .inr ⟨Array.toList_push, ?_⟩
      intro last' found'
      cases found.symm.trans found'
      exact other
  · rename_i none
    refine .inr ⟨Array.toList_push, ?_⟩
    intro last found
    cases none.symm.trans found

theorem Extends.exists_byte (extends_ : b.Extends b') :
    ∃ byte, b'.code[b.offset]? = some byte ∧ b'.offset = b.offset + Chunk.instructionLength byte := by
  obtain ⟨byte, operand, code, length⟩ := extends_.code
  refine ⟨byte, ?_, ?_⟩
  · rw [← Array.getElem?_toList, code, offset, ← Array.length_toList, List.getElem?_append_right (Nat.le_refl _),
      Nat.sub_self]
    rfl
  · rw [offset, offset, ← Array.length_toList, code, List.length_append, List.length_cons, length,
      Array.length_toList]

theorem Extends.offset_lt (extends_ : b.Extends b') : b.offset < b'.offset := by
  obtain ⟨byte, _, end_⟩ := extends_.exists_byte
  have positive := Chunk.instructionLength_pos byte
  omega

theorem Extends.marked (extends_ : b.Extends b') (marked : b.Marked) : b'.Marked := by
  have longer := extends_.offset_lt
  have within_ : ∀ e ∈ b.lineEntries, e.offset < b'.offset := by
    intro e member
    have before := marked.within_ e member
    omega
  rcases extends_.lineEntries_cases with ⟨same, _⟩ | ⟨noted, other⟩
  · rw [← same] at within_
    exact ⟨same ▸ marked.increasing, same ▸ marked.changing, within_⟩
  · refine ⟨?_, ?_, ?_⟩
    · rw [noted, List.pairwise_append]
      refine ⟨marked.increasing, List.pairwise_singleton _ _, ?_⟩
      intro e member last new
      rw [List.mem_singleton.mp new]
      exact marked.within_ e member
    · rw [noted, List.isChain_append]
      refine ⟨marked.changing, .singleton _, ?_⟩
      intro last found e new
      cases new
      exact other last found
    · intro e member
      rw [noted] at member
      rcases List.mem_append.mp member with earlier | new
      · exact within_ e earlier
      · rw [List.mem_singleton.mp new]
        exact Int.ofNat_lt.mpr longer

/-- Bytes that are in the code keep their line, for an entry begins at its end. -/
theorem Extends.lineOf_earlier (extends_ : b.Extends b') (earlier : offset < b.offset) :
    Chunk.lineOf b'.lineEntries offset = Chunk.lineOf b.lineEntries offset := by
  rcases extends_.lineEntries_cases with ⟨same, _⟩ | ⟨noted, _⟩
  · rw [same]
  · rw [noted, Chunk.lineOf_concat, if_neg (by dsimp only; omega)]

/-- Bytes that are appended have the current line. -/
theorem Extends.lineOf_new (extends_ : b.Extends b') (marked : b.Marked) (new : b.offset ≤ offset) :
    Chunk.lineOf b'.lineEntries offset = b.line := by
  rcases extends_.lineEntries_cases with ⟨same, last, found, line⟩ | ⟨noted, _⟩
  · rw [same, ← line]
    apply Chunk.lineOf_of_le found
    intro e member
    have before := marked.within_ e member
    omega
  · rw [noted, Chunk.lineOf_concat, if_pos (by dsimp only; omega)]

/-! ## Sequences of calls -/

theorem Marked.write (marked : b.Marked) (call : Writing) : (b.write call).Marked := by
  rcases b.write_cases call with ⟨line, _, set⟩ | ⟨_, extends_⟩
  · rw [set]
    exact ⟨marked.increasing, marked.changing, marked.within_⟩
  · exact extends_.marked marked

theorem Marked.writes (marked : b.Marked) (made : List Writing) : (b.writes made).Marked := by
  induction made generalizing b with
  | nil => exact marked
  | cons call rest ih => exact ih (marked.write call)

theorem writes_append (b : Builder) (earlier later : List Writing) :
    b.writes (earlier ++ later) = (b.writes earlier).writes later := List.foldl_append

/-- What is written later leaves the code and its lines as they are. -/
structure Keeps (b b' : Builder) : Prop where
  offset : b.offset ≤ b'.offset
  code : ∀ p < b.offset, b'.code[p]? = b.code[p]?
  lines : ∀ p < b.offset, Chunk.lineOf b'.lineEntries p = Chunk.lineOf b.lineEntries p

theorem keeps_write (b : Builder) (call : Writing) : b.Keeps (b.write call) := by
  rcases b.write_cases call with ⟨line, _, set⟩ | ⟨_, extends_⟩
  · rw [set]
    exact ⟨Nat.le_refl _, fun _ _ => rfl, fun _ _ => rfl⟩
  · refine ⟨Nat.le_of_lt extends_.offset_lt, ?_, fun p earlier => extends_.lineOf_earlier earlier⟩
    intro p earlier
    obtain ⟨byte, operand, code, _⟩ := extends_.code
    have inside : p < b.code.toList.length := by
      rw [Array.length_toList]
      exact earlier
    rw [← Array.getElem?_toList, code, List.getElem?_append_left inside, Array.getElem?_toList]

theorem keeps_writes (b : Builder) (made : List Writing) : b.Keeps (b.writes made) := by
  induction made generalizing b with
  | nil => exact ⟨Nat.le_refl _, fun _ _ => rfl, fun _ _ => rfl⟩
  | cons call rest ih =>
      have first := b.keeps_write call
      have later := ih (b.write call)
      refine ⟨Nat.le_trans first.offset later.offset, ?_, ?_⟩
      · intro p inside
        exact (later.code p (Nat.lt_of_lt_of_le inside first.offset)).trans (first.code p inside)
      · intro p inside
        exact (later.lines p (Nat.lt_of_lt_of_le inside first.offset)).trans (first.lines p inside)

theorem line_writes (made : List Writing) : (writes {} made).line = lastLine made := by
  induction made using List.reverseRecOn with
  | nil => rfl
  | append_singleton earlier call ih =>
      rw [writes_append]
      show ((writes {} earlier).write call).line = _
      unfold lastLine at ih ⊢
      rcases (writes {} earlier).write_cases call with ⟨line, given, set⟩ | ⟨given, extends_⟩
      · rw [set]
        simp [given, setLine]
      · rw [extends_.line, ih]
        simp [given]

/-- Every byte of the code was emitted by one of the calls. -/
theorem exists_emits (inside : offset < (writes {} made).offset) : ∃ earlier, Emits made earlier offset := by
  -- On the last call: a byte that was there before it is one of an earlier call, and stays.
  induction made using List.reverseRecOn with
  | nil => cases inside
  | append_singleton before last ih =>
      have after : writes {} (before ++ [last]) = (writes {} before).write last := writes_append _ _ _
      by_cases earlier : offset < (writes {} before).offset
      · obtain ⟨earlier, call, later, byte, made, present, length, from_, upTo⟩ := ih earlier
        have kept := (writes {} before).keeps_write last
        refine ⟨earlier, call, later ++ [last], byte, by simp [made], ?_, length, from_, upTo⟩
        rw [after, kept.code _ (by omega), present]
      · rw [after] at inside
        rcases (writes {} before).write_cases last with ⟨line, _, set⟩ | ⟨_, extends_⟩
        · rw [set] at inside
          exact absurd inside earlier
        · obtain ⟨byte, present, length⟩ := extends_.exists_byte
          refine ⟨before, last, [], byte, rfl, ?_, ?_, by omega, ?_⟩
          · rw [after, present]
          · rw [after, length]
          · rw [after]
            exact inside

theorem Emits.lineOf_eq (emits : Emits made earlier offset) :
    Chunk.lineOf (writes {} made).lineEntries offset = lastLine earlier := by
  obtain ⟨call, later, byte, rfl, present, length, from_, upTo⟩ := emits
  have split : earlier ++ call :: later = (earlier ++ [call]) ++ later := by simp
  have after : writes {} (earlier ++ [call]) = (writes {} earlier).write call := writes_append _ _ _
  rw [split, writes_append, ((writes {} (earlier ++ [call])).keeps_writes later).lines offset upTo]
  rw [after] at upTo ⊢
  rcases (writes {} earlier).write_cases call with ⟨line, _, set⟩ | ⟨_, extends_⟩
  · rw [set] at upTo
    exact absurd upTo (Nat.not_lt.mpr from_)
  · rw [extends_.lineOf_new (start_marked.writes earlier) from_, line_writes]

/-- Whatever is written on a new builder, each byte of the code belongs to an instruction that one of the calls emitted,
and the line that is found for it is the one that was set last before this call. The table has no entry too many:
offsets increase, and each entry changes the line. -/
theorem line_table_exact (made : List Writing) :
    (∀ offset < (writes {} made).offset, ∃ earlier, Emits made earlier offset) ∧
    (∀ earlier offset, Emits made earlier offset →
      (writes {} made).chunk.lineAt offset = lastLine earlier) ∧
    (writes {} made).chunk.lines.entries.toList.Pairwise (·.offset < ·.offset) ∧
    (writes {} made).chunk.lines.entries.toList.IsChain (·.line ≠ ·.line) := by
  have marked := start_marked.writes made
  refine ⟨fun offset inside => exists_emits inside, ?_, marked.increasing, marked.changing⟩
  intro earlier offset emits
  exact (Chunk.lineAt_eq_lineOf marked.increasing offset).trans emits.lineOf_eq

/-- Lines that go backwards, are set twice before an instruction, are zero, and come back. -/
def ramble : List Writing :=
  [.setLine 7, .emitJump true 1, .setLine 3, .setLine 0, .emitConstant (Literal.constant .null), .setLine 7,
    .emit 0xFF 0, .emitLoop 2]

theorem line_table_exact_of_ramble :
    Emits ramble (ramble.take 4) 4 ∧ (writes {} ramble).chunk.lineAt 4 = 0 ∧
    Emits ramble (ramble.take 7) 7 ∧ (writes {} ramble).chunk.lineAt 7 = 7 := by
  have operand : Emits ramble (ramble.take 4) 4 :=
    ⟨.emitConstant (Literal.constant .null), _, 0x02, rfl, by decide +kernel, by decide +kernel, by decide +kernel,
      by decide +kernel⟩
  have back : Emits ramble (ramble.take 7) 7 :=
    ⟨.emitLoop 2, _, 0x40, rfl, by decide +kernel, by decide +kernel, by decide +kernel, by decide +kernel⟩
  obtain ⟨_, lines, _, _⟩ := line_table_exact ramble
  exact ⟨operand, lines _ _ operand, back, lines _ _ back⟩

end Builder

end TableMachine
