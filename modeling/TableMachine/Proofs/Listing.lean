import TableMachine.Code.Listing
import TableMachine.Proofs.Reentry

/-! # A listing says what is executed

The listing of a chunk is made from the bytes alone, and so is what a machine executes. This module reads numbers
back from the text of a listing, and compares them with the machine: the length that is listed is how far the pointer
moves, the operand in the text is the one that is executed, and the target of a jump is where the pointer goes when
the jump is taken. Every offset within the code has a listed length of at least one that does not leave the code, so
the lines of a listing cut the code into pieces, without a gap and without an overlap.
-/

namespace TableMachine

namespace Text

variable {base n : Nat} {bytes rest : Text} {b : UInt8}

/-! ## Numbers in a text -/

/-- The value of a digit, in either case. -/
def digitValue? (b : UInt8) : Option Nat :=
  if 0x30 ≤ b ∧ b ≤ 0x39 then some (b.toNat - 0x30)
  else if 0x41 ≤ b ∧ b ≤ 0x46 then some (b.toNat - 0x37)
  else if 0x61 ≤ b ∧ b ≤ 0x66 then some (b.toNat - 0x57)
  else none

def isDigit (base : Nat) (b : UInt8) : Bool := (digitValue? b).any (· < base)

/-- The natural number that a text begins with, if it begins with a digit. -/
def readNat? (base : Nat) (text : Text) : Option Nat :=
  let digits := text.takeWhile (isDigit base)
  if digits.isEmpty then none
  else some (digits.foldl (fun n b => base * n + (digitValue? b).getD 0) 0)

/-- The integer that a text begins with; a sign may stand before its digits. -/
def readInt? (base : Nat) (text : Text) : Option Int :=
  if text.head? = some 0x2D then (readNat? base text.tail).map fun n => -(n : Int)
  else if text.head? = some 0x2B then (readNat? base text.tail).map Int.ofNat
  else (readNat? base text).map Int.ofNat

/-- The bytes are digits, and the number is theirs. -/
def Spells (base : Nat) (bytes : Text) (n : Nat) : Prop :=
  ∃ values : List Nat, bytes.map digitValue? = values.map some ∧ values ≠ [] ∧ (∀ d ∈ values, d < base) ∧
    values.foldl (fun n d => base * n + d) 0 = n

/-- No digit comes next. -/
def Stops (base : Nat) (rest : Text) : Prop := ∀ b ∈ rest.head?, isDigit base b = false

theorem digitValue?_digitChar {d : Nat} (small : d < 16) : digitValue? d.digitChar.toNat.toUInt8 = some d := by
  revert d
  decide

theorem digitValue?_upperByte (b : UInt8) : digitValue? (upperByte b) = digitValue? b := by
  unfold upperByte
  split
  · rename_i letter
    have low : (b - 0x20).toNat = b.toNat - 0x20 :=
      UInt8.toNat_sub_of_le _ _ (UInt8.le_trans (by decide) letter.1)
    simp only [UInt8.le_iff_toNat_le] at letter
    simp only [digitValue?, UInt8.le_iff_toNat_le, low]
    grind
  · rfl

/-- The digits of a number, the highest first, by what is left when the lowest is taken off. -/
theorem toDigits_eq_map (large : 1 < base) (n : Nat) :
    ∃ values : List Nat, Nat.toDigits base n = values.map Nat.digitChar ∧ values ≠ [] ∧
      (∀ d ∈ values, d < base) ∧ values.foldl (fun n d => base * n + d) 0 = n := by
  induction n using Nat.strongRecOn with
  | ind n ih =>
      rw [Nat.toDigits_eq_if large]
      split
      · rename_i small
        exact ⟨[n], rfl, by simp, by simpa using small, by simp⟩
      · rename_i more
        obtain ⟨values, digits, _, small, value⟩ := ih (n / base) (Nat.div_lt_self (by omega) large)
        refine ⟨values ++ [n % base], by simp [digits], by simp, ?_, ?_⟩
        · rw [List.forall_mem_append, List.forall_mem_singleton]
          exact ⟨small, Nat.mod_lt n (by omega)⟩
        · simp [List.foldl_append, value, Nat.div_add_mod]

theorem spells_digits (large : 1 < base) (most : base ≤ 16) (n : Nat) : Spells base (digits base n) n := by
  obtain ⟨values, digits_, present, small, value⟩ := toDigits_eq_map large n
  refine ⟨values, ?_, present, small, value⟩
  rw [digits, digits_, List.map_map, List.map_map]
  apply List.map_congr_left
  intro d member
  exact digitValue?_digitChar (Nat.lt_of_lt_of_le (small d member) most)

theorem Spells.upper (spells : Spells base bytes n) : Spells base (bytes.map upperByte) n := by
  obtain ⟨values, digits, rest⟩ := spells
  refine ⟨values, ?_, rest⟩
  rw [List.map_map, ← digits]
  exact List.map_congr_left fun b _ => digitValue?_upperByte b

theorem Spells.zeros (spells : Spells base bytes n) (large : 0 < base) (count : Nat) :
    Spells base (List.replicate count 0x30 ++ bytes) n := by
  obtain ⟨values, digits, present, small, value⟩ := spells
  refine ⟨List.replicate count 0 ++ values, ?_, by simp [present], ?_, ?_⟩
  · rw [List.map_append, List.map_append, digits, List.map_replicate, List.map_replicate]
    rfl
  · rw [List.forall_mem_append]
    exact ⟨fun d member => by rw [List.eq_of_mem_replicate member]; exact large, small⟩
  · have none_ : (List.replicate count 0).foldl (fun n d => base * n + d) 0 = 0 := by
      induction count with
      | zero => rfl
      | succ count ih => simpa [List.replicate_succ] using ih
    rw [List.foldl_append, none_, value]

theorem Spells.digit (spells : Spells base bytes n) (member : b ∈ bytes) : isDigit base b = true := by
  obtain ⟨values, digits, _, small, _⟩ := spells
  have listed : digitValue? b ∈ values.map some := digits ▸ List.mem_map_of_mem member
  obtain ⟨d, inside, same⟩ := List.mem_map.mp listed
  simp [isDigit, ← same, small d inside]

theorem Spells.ne_nil (spells : Spells base bytes n) : bytes ≠ [] := by
  obtain ⟨values, digits, present, _⟩ := spells
  rintro rfl
  exact present (List.map_eq_nil_iff.mp digits.symm)

theorem Spells.readNat? (spells : Spells base bytes n) (stops : Stops base rest) :
    Text.readNat? base (bytes ++ rest) = some n := by
  have taken : (bytes ++ rest).takeWhile (isDigit base) = bytes := by
    rw [List.takeWhile_append_of_pos fun b member => spells.digit member]
    cases rest with
    | nil => simp
    | cons b rest => rw [List.takeWhile_cons, stops b rfl]; simp
  have some_ := spells.ne_nil
  obtain ⟨values, digits, _, _, value⟩ := spells
  have number : bytes.foldl (fun n b => base * n + (digitValue? b).getD 0) 0 = n := by
    rw [← value, ← List.foldl_map (f := fun b => (digitValue? b).getD 0) (g := fun n d => base * n + d)]
    have same : bytes.map (fun b => (digitValue? b).getD 0) = values := by
      have got := congrArg (List.map fun x : Option Nat => x.getD 0) digits
      simpa [Function.comp_def] using got
    rw [same]
  simp [Text.readNat?, taken, some_, number]

theorem Spells.readInt? (spells : Spells base bytes n) (stops : Stops base rest) :
    Text.readInt? base (bytes ++ rest) = some (n : Int) ∧
      Text.readInt? base (0x2B :: (bytes ++ rest)) = some (n : Int) ∧
      Text.readInt? base (0x2D :: (bytes ++ rest)) = some (-(n : Int)) := by
  have number := spells.readNat? stops
  -- A sign is no digit, so a number without one is not taken for a number with one.
  have unsigned {sign : UInt8} (none_ : digitValue? sign = none) : (bytes ++ rest).head? ≠ some sign := by
    obtain ⟨first, more, rfl⟩ := List.exists_cons_of_ne_nil spells.ne_nil
    intro same
    have digit := spells.digit (List.mem_cons_self (a := first) (l := more))
    rw [Option.some.inj same, isDigit, none_] at digit
    cases digit
  refine ⟨?_, ?_, ?_⟩
  · rw [Text.readInt?, if_neg (unsigned (by decide)), if_neg (unsigned (by decide)), number]
    rfl
  · rw [Text.readInt?, List.head?_cons, if_neg (by decide), if_pos rfl, List.tail_cons, number]
    rfl
  · rw [Text.readInt?, List.head?_cons, if_pos rfl, List.tail_cons, number]
    rfl

theorem readInt?_ofInt (i : Int) (stops : Stops 10 rest) : readInt? 10 (ofInt i ++ rest) = some i := by
  cases i with
  | ofNat n => exact ((spells_digits (by decide) (by decide) n).readInt? stops).1
  | negSucc n => exact ((spells_digits (by decide) (by decide) (n + 1)).readInt? stops).2.2

theorem readInt?_ofIntSigned (i : Int) (stops : Stops 10 rest) : readInt? 10 (ofIntSigned i ++ rest) = some i := by
  unfold ofIntSigned
  split
  · rename_i positive
    obtain ⟨n, rfl⟩ := Int.eq_ofNat_of_zero_le positive
    exact ((spells_digits (by decide) (by decide) n).readInt? stops).2.1
  · exact readInt?_ofInt i stops

theorem readInt?_ofIntHex (width : Nat) (i : Int) (stops : Stops 16 rest) :
    readInt? 16 (ofIntHex width i ++ rest) = some i := by
  have spells := (spells_digits (by decide) (Nat.le_refl 16) i.natAbs).upper
  have read (count : Nat) := (spells.zeros (by decide) count).readInt? stops
  unfold ofIntHex
  simp only [List.append_assoc] at read ⊢
  split
  · rename_i negative
    rw [List.singleton_append, (read _).2.2]
    congr 1
    omega
  · rename_i positive
    rw [List.nil_append, (read _).1]
    congr 1
    omega

/-- A digit or a sign. -/
def startsNumber (b : UInt8) : Bool := isDigit 10 b || b == 0x2D || b == 0x2B

theorem startsNumber_ofInt (i : Int) : ∀ b ∈ ofInt i, startsNumber b = true := by
  intro b member
  have digit {n : Nat} (member : b ∈ ofNat n) : startsNumber b = true := by
    simp [startsNumber, (spells_digits (by decide) (by decide) n).digit member]
  cases i with
  | ofNat n => exact digit member
  | negSucc n =>
      rcases List.mem_cons.mp member with rfl | member
      · rfl
      · exact digit member

theorem startsNumber_ofIntSigned (i : Int) : ∀ b ∈ ofIntSigned i, startsNumber b = true := by
  unfold ofIntSigned
  split
  · exact List.forall_mem_cons.mpr ⟨rfl, startsNumber_ofInt i⟩
  · exact startsNumber_ofInt i

end Text

/-! ## The text of an instruction -/

namespace Listing

open Text

variable {c : Chunk} {op : Opcode} {operand : Int} {offset : Nat} {lead number note : Text}

/-- The operand in the text of an instruction: the first number after the name. -/
def operand? (text : Text) : Option Int :=
  readInt? 10 ((text.dropWhile (· != 0x20)).dropWhile fun b => !startsNumber b)

/-- The target in the text of a jump: the number that the arrow points to. -/
def target? (text : Text) : Option Int := readInt? 16 ((text.dropWhile (· != 0x3E)).drop 2)

/-- The offset that a line of a listing begins with. -/
def offset? (line : Text) : Option Int := readInt? 16 line

theorem name_bytes (op : Opcode) : ∀ b ∈ op.name, b ≠ 0x20 ∧ b ≠ 0x3E := by
  have named : op.name.all (fun b => b != 0x20 && b != 0x3E) = true := by
    cases op <;> decide
  simpa using named

theorem stops_blank (base : Nat) (more : Text) : Stops base (0x20 :: more) := by
  intro b first
  cases first
  rfl

theorem stops_nil (base : Nat) : Stops base [] := by
  intro b first
  cases first

private theorem dropWhile_eq {p : UInt8 → Bool} {before after : Text} {b : UInt8}
    (pass : ∀ x ∈ before, p x = true) (stop : p b = false) : (before ++ b :: after).dropWhile p = b :: after := by
  rw [List.dropWhile_append_of_pos pass, List.dropWhile_cons_of_neg (by simp [stop])]

theorem operand?_of_number {text : Text} (shape : text = op.name ++ 0x20 :: (lead ++ (number ++ note)))
    (silent : ∀ b ∈ lead, startsNumber b = false) (starts : ∀ b ∈ number, startsNumber b = true)
    (read : readInt? 10 (number ++ note) = some operand) (present : number ≠ []) :
    operand? text = some operand := by
  obtain ⟨b, more, rfl⟩ := List.exists_cons_of_ne_nil present
  have named : text.dropWhile (· != 0x20) = 0x20 :: (lead ++ (b :: more ++ note)) := by
    rw [shape]
    exact dropWhile_eq (fun x member => by simpa using (name_bytes op x member).1) rfl
  have blank : 0x20 :: (lead ++ (b :: more ++ note)) = (0x20 :: lead) ++ b :: (more ++ note) := rfl
  rw [operand?, named, blank, dropWhile_eq _ (by simp [starts b List.mem_cons_self])]
  · exact read
  · simpa [startsNumber, isDigit, digitValue?] using silent

theorem ofInt_ne_nil (i : Int) : ofInt i ≠ [] := by
  intro empty
  have read := readInt?_ofInt i (stops_nil 10)
  rw [empty] at read
  cases read

theorem ofIntSigned_ne_nil (i : Int) : ofIntSigned i ≠ [] := by
  unfold ofIntSigned
  split
  · simp
  · exact ofInt_ne_nil i

/-- The name and the operand, and a remark where there is one. -/
theorem operand?_plain {remark : List Text} (stops : Stops 10 remark.flatten) :
    operand? (Text.concat (Text.concat [op.name, " ", ofInt operand] :: remark)) = some operand := by
  have blank : Text.ofString " " = [0x20] := by decide
  have shape : Text.concat (Text.concat [op.name, " ", ofInt operand] :: remark) =
      op.name ++ 0x20 :: ([] ++ (ofInt operand ++ remark.flatten)) := by
    simp [Text.concat, blank]
  exact operand?_of_number shape (by simp) (startsNumber_ofInt operand) (readInt?_ofInt operand stops)
    (ofInt_ne_nil operand)

theorem operand?_name : operand? (Text.concat [op.name, " ", ofInt operand]) = some operand := by
  have plain : operand? (Text.concat [Text.concat [op.name, " ", ofInt operand]]) = some operand :=
    operand?_plain (stops_nil 10)
  rwa [Text.concat, List.flatten_singleton] at plain

/-- Both remarks begin with a blank. -/
theorem stops_remark (more : List Text) : Stops 10 (Text.ofString " ; " :: more).flatten ∧
    Stops 10 [Text.ofString " ; <invalid>"].flatten := by
  have semicolon : Text.ofString " ; " = 0x20 :: [0x3B, 0x20] := by decide
  have invalid : Text.ofString " ; <invalid>" = 0x20 :: Text.ofString "; <invalid>" := by decide
  rw [List.flatten_cons, List.flatten_singleton, semicolon, invalid]
  exact ⟨stops_blank 10 _, stops_blank 10 _⟩

theorem width_of_isJump (jump : op.isJump = true) : op.width ≠ 0 := by
  cases op with
  | jump8 | jump16 | jump32 | jumpIfFalse8 | jumpIfFalse16 | jumpIfFalse32 => exact Nat.succ_ne_zero _
  | _ => cases jump

theorem describe_jump (jump : op.isJump = true) : Chunk.listInstruction?.describe c op operand offset =
    op.name ++ 0x20 :: (ofIntSigned operand ++ 0x20 :: 0x28 :: 0x2D :: 0x3E :: 0x20 ::
      (ofIntHex 4 (offset + op.length + operand) ++ [0x29])) := by
  have blank : Text.ofString " " = [0x20] := by decide
  have arrow : Text.ofString " (-> " = [0x20, 0x28, 0x2D, 0x3E, 0x20] := by decide
  have close : Text.ofString ")" = [0x29] := by decide
  unfold Chunk.listInstruction?.describe
  simp only
  split
  case h_6 =>
    rw [if_neg (width_of_isJump jump), if_pos jump]
    simp [Text.concat, blank, arrow, close]
  all_goals cases jump

theorem operand?_describe (wide : op.width ≠ 0) :
    operand? (Chunk.listInstruction?.describe c op operand offset) = some operand := by
  by_cases jump : op.isJump = true
  · have shape : Chunk.listInstruction?.describe c op operand offset =
        op.name ++ 0x20 :: ([] ++ (ofIntSigned operand ++ _)) := describe_jump jump
    exact operand?_of_number shape (by simp) (startsNumber_ofIntSigned operand)
      (readInt?_ofIntSigned operand (stops_blank 10 _)) (ofIntSigned_ne_nil operand)
  · unfold Chunk.listInstruction?.describe
    simp only
    split
    · split
      · exact operand?_plain (stops_remark _).1
      · exact operand?_plain (stops_remark []).2
    · split
      · exact operand?_plain (stops_remark _).1
      · exact operand?_name
    · split
      · exact operand?_plain (stops_remark _).1
      · exact operand?_name
    · have shape : Text.concat ["CALL argc=", ofInt operand] =
          Opcode.call.name ++ 0x20 :: ([0x61, 0x72, 0x67, 0x63, 0x3D] ++ (ofInt operand ++ [])) := by
        have call : Text.ofString "CALL argc=" = Opcode.call.name ++ [0x20, 0x61, 0x72, 0x67, 0x63, 0x3D] := by decide
        simp [Text.concat, call]
      have silent : ∀ b ∈ [0x61, 0x72, 0x67, 0x63, 0x3D], startsNumber b = false := by
        simp [startsNumber, isDigit, digitValue?]
      exact operand?_of_number shape silent (startsNumber_ofInt operand) (readInt?_ofInt operand (stops_nil 10))
        (ofInt_ne_nil operand)
    · split
      · exact operand?_plain (stops_remark _).1
      · exact operand?_plain (stops_remark []).2
    · rw [if_neg wide, if_neg jump]
      exact operand?_name

theorem target?_describe (jump : op.isJump = true) :
    target? (Chunk.listInstruction?.describe c op operand offset) = some (offset + op.length + operand : Int) := by
  have passed : ∀ b ∈ op.name ++ 0x20 :: (ofIntSigned operand ++ [0x20, 0x28, 0x2D]), (b != 0x3E) = true := by
    rw [List.forall_mem_append, List.forall_mem_cons, List.forall_mem_append]
    refine ⟨fun b member => by simpa using (name_bytes op b member).2, rfl, fun b member => ?_, by simp⟩
    have starts := startsNumber_ofIntSigned operand b member
    rw [bne_iff_ne]
    rintro rfl
    cases starts
  have shape : Chunk.listInstruction?.describe c op operand offset =
      (op.name ++ 0x20 :: (ofIntSigned operand ++ [0x20, 0x28, 0x2D])) ++ 0x3E :: 0x20 ::
        (ofIntHex 4 (offset + op.length + operand) ++ [0x29]) := by
    simp [describe_jump jump]
  rw [target?, shape, dropWhile_eq passed rfl]
  refine readInt?_ofIntHex 4 _ ?_
  intro b first
  cases first
  rfl

end Listing

/-! ## Lengths -/

namespace Chunk

variable {c : Chunk} {i : Instruction} {offset fuel : Nat} {line : Int}

theorem listInstruction?_of_some (found : c.instruction? offset = some i) :
    c.listInstruction? offset = some (listInstruction?.describe c i.op i.operand offset, i.op.length) := by
  obtain ⟨byte, _, stored, known, _⟩ := instruction?_eq_some found
  unfold listInstruction?
  rw [if_neg (by omega)]
  simp only [Int.toNat_natCast, stored, known, found]

/-- Whatever stands within the code, its listed length is at least one byte and none beyond the end. -/
theorem listInstruction?_inside (c : Chunk) (inside : offset < c.codeSize) :
    ∃ text n, c.listInstruction? offset = some (text, n) ∧ 1 ≤ n ∧ offset + n ≤ c.codeSize := by
  obtain ⟨byte, stored⟩ : ∃ byte, c.code.entries[offset]? = some byte := ⟨_, Array.getElem?_eq_getElem inside⟩
  cases found : c.instruction? offset with
  | some i =>
      obtain ⟨_, _, _, _, _, _, _, within_⟩ := instruction?_eq_some found
      exact ⟨_, _, listInstruction?_of_some found, Nat.le_add_right 1 i.op.width, within_⟩
  | none =>
      unfold listInstruction?
      rw [if_neg (by omega)]
      simp only [Int.toNat_natCast, stored, found]
      split
      · exact ⟨_, _, rfl, Nat.le_refl 1, inside⟩
      · refine ⟨_, _, rfl, ?_, ?_⟩
        · exact Nat.sub_pos_of_lt inside
        · exact Nat.le_of_eq (Nat.add_sub_cancel' (Nat.le_of_lt inside))

/-- The lines from an offset on, each with the piece of code that it lists. A round takes at least one byte, so the
rounds that are left are enough for the bytes that are left. -/
theorem listCode_spans (enough : c.codeSize ≤ offset + fuel) (inside : offset ≤ c.codeSize) (line : Int) :
    ∃ spans : List (Nat × Nat),
      (c.listCode fuel offset line).map Listing.offset? = spans.map (fun span => some (span.1 : Int)) ∧
      (∀ span ∈ spans, ∃ text, c.listInstruction? span.1 = some (text, span.2)) ∧
      spans.flatMap (fun span => List.range' span.1 span.2) = List.range' offset (c.codeSize - offset) := by
  induction fuel generalizing offset line with
  | zero =>
      have end_ : c.codeSize - offset = 0 := by omega
      exact ⟨[], rfl, by simp, by rw [end_]; rfl⟩
  | succ fuel ih =>
      unfold listCode
      split
      · rename_i more
        obtain ⟨text, n, listed, positive, within_⟩ := c.listInstruction?_inside more
        obtain ⟨spans, offsets, lengths, pieces⟩ :=
          ih (by omega) within_ (c.lineAt offset)
        refine ⟨(offset, n) :: spans, ?_, List.forall_mem_cons.mpr ⟨⟨text, listed⟩, lengths⟩, ?_⟩
        · have blank : Text.ofString " " = [0x20] := by decide
          simp only [listed, List.map_cons, offsets]
          congr 1
          simp only [Text.concat, List.flatten_cons, blank]
          exact Text.readInt?_ofIntHex 4 offset (Listing.stops_blank 16 _)
        · rw [List.flatMap_cons, pieces, List.range'_append_1]
          congr 1
          omega
      · have end_ : c.codeSize - offset = 0 := by omega
        exact ⟨[], rfl, by simp, by rw [end_]; rfl⟩

end Chunk

/-! ## What a machine does with it -/

namespace Machine

/-- The text and the length tell what the machine does that is about to execute `i`. A conditional jump is taken
when the value on top of the stack is not true. -/
structure Told (s : Setup) (m : Machine) (frame : Frame) (i : Chunk.Instruction) (text : Text) (length : Nat) :
    Prop where
  moves : (m.fetched frame i).frames.top?.map (·.ip) = some (frame.ip + length)
  executes : needed i.op i.operand ≤ m.stack.height →
    m.step s = settled frame frame.ip ((m.fetched frame i).execute s frame i.op i.operand)
  operand : i.op.width ≠ 0 → Listing.operand? text = some i.operand
  jumps : i.op.isJump = true →
    (i.op.isConditionalJump = true → ∃ v, m.stack.top? = some v ∧ v.truthy m.heap = false) →
    ∃ target m', Listing.target? text = some target ∧ m.step s = .next m' ∧
      m'.frames.top?.map (·.ip) = some target

variable {s : Setup} {m : Machine} {frame : Frame} {i : Chunk.Instruction} {op : Opcode} {operand : Int}

/-- A jump that is taken moves the pointer by its operand, and changes nothing but the stack besides. -/
theorem execute_jump (s : Setup) (frame : Frame) (operand : Int) (jump : op.isJump = true)
    (taken : op.isConditionalJump = true → ∃ v, m.stack.top? = some v ∧ v.truthy m.heap = false) :
    needed op operand ≤ m.stack.height ∧
      ∃ count, m.execute s frame op operand = .done ((m.drop count).jumpBy operand) := by
  have conditional {v : Value} (top : m.stack.top? = some v) (false_ : v.truthy m.heap = false) :
      1 ≤ m.stack.height ∧ (m.withOne fun v m => .done (if v.truthy m.heap then m else m.jumpBy operand)) =
        .done ((m.drop 1).jumpBy operand) := by
    obtain ⟨rest, items⟩ := Stack.top?_eq_some_iff.mp top
    have heap : (m.drop 1).heap = m.heap := rfl
    constructor
    · rw [m.stack.height_eq, items]
      exact Nat.succ_pos _
    · simp [withOne, items, heap, false_]
  cases op with
  | jump8 | jump16 | jump32 => exact ⟨Nat.zero_le _, 0, rfl⟩
  | jumpIfFalse8 | jumpIfFalse16 | jumpIfFalse32 =>
      obtain ⟨v, top, false_⟩ := taken rfl
      obtain ⟨enough, executed⟩ := conditional top false_
      exact ⟨enough, 1, executed⟩
  | _ => cases jump

theorem Fetches.told (fetches : m.Fetches frame i) {offset : Nat} (at_ : frame.ip = offset) :
    m.Told s frame i (Chunk.listInstruction?.describe frame.chunk i.op i.operand offset) i.op.length where
  moves := by
    rw [fetches.top_fetched, Int.toNat_of_nonneg fetches.pointer]
    rfl
  executes := fetches.step_eq_execute
  operand := Listing.operand?_describe
  jumps := by
    intro jump taken
    obtain ⟨enough, count, executed⟩ := execute_jump (m := m.fetched frame i) s frame i.operand jump taken
    refine ⟨offset + i.op.length + i.operand, ((m.fetched frame i).drop count).jumpBy i.operand,
      Listing.target?_describe jump, ?_, ?_⟩
    · rw [fetches.step_eq_execute enough, executed]
      rfl
    · show (((m.fetched frame i).frames.modifyTop _).top?).map _ = _
      rw [Stack.top?_modifyTop, fetches.top_fetched, at_]
      rfl

/-- Every offset within the code is listed with a text and a length, and where a machine finds an instruction there,
they tell what it does. The length leads from one line of a listing to the next, up to the end of the code: the
offsets that the lines begin with cut the code into the pieces that are listed. -/
theorem listing_tells (c : Chunk) :
    (∀ offset < c.codeSize, ∃ text length, c.listInstruction? offset = some (text, length) ∧ 1 ≤ length ∧
      offset + length ≤ c.codeSize ∧
      ∀ (s : Setup) (m : Machine) (frame : Frame) (i : Chunk.Instruction), m.Fetches frame i → frame.chunk = c →
        frame.ip = offset → m.Told s frame i text length) ∧
    ∀ fuel line, c.codeSize ≤ fuel → ∃ spans : List (Nat × Nat),
      (c.listCode fuel 0 line).map Listing.offset? = spans.map (fun span => some (span.1 : Int)) ∧
      (∀ span ∈ spans, ∃ text, c.listInstruction? span.1 = some (text, span.2)) ∧
      spans.flatMap (fun span => List.range' span.1 span.2) = List.range c.codeSize := by
  constructor
  · intro offset inside
    obtain ⟨text, length, listed, positive, within_⟩ := c.listInstruction?_inside inside
    refine ⟨text, length, listed, positive, within_, ?_⟩
    rintro s m frame i fetches rfl at_
    have found := fetches.instruction
    rw [at_, Int.toNat_natCast] at found
    cases listed.symm.trans (Chunk.listInstruction?_of_some found)
    exact fetches.told at_
  · intro fuel line enough
    rw [← Nat.zero_add fuel] at enough
    obtain ⟨spans, offsets, lengths, pieces⟩ := Chunk.listCode_spans enough (Nat.zero_le _) line
    exact ⟨spans, offsets, lengths, pieces.trans List.range_eq_range'.symm⟩

end Machine

/-! ## Code that is not all instructions

A false value is put on the stack, and a jump over a byte that is no opcode is taken. It lands on a jump back, after
which the code ends within an instruction.
-/

namespace Mixed

open Machine

def main : Chunk :=
  { Chunk.empty with
    code := some #[0x02, 0, 0, 0x43, 1, 0xFF, 0x40, 0xF8, 0x02]
    constants := some #[Literal.constant (.bool false)] }

def setup : Setup where
  config := {}
  natives := #[]
  loaded := ⟨0, ⟨some main, #[]⟩⟩

def after (count : Nat) : Machine :=
  (runSteps setup count ((Machine.new { heap := {}, files := .empty [] }).start main)).2

end Mixed

namespace Machine

theorem listing_tells_of_mixed :
    (∃ text length, Mixed.main.listInstruction? 3 = some (text, length) ∧ Listing.operand? text = some 1 ∧
      Listing.target? text = some 6 ∧ (Mixed.after 1).step Mixed.setup = .next (Mixed.after 2) ∧
      (Mixed.after 2).frames.top?.map (·.ip) = some 6) ∧
    ∃ spans : List (Nat × Nat), (Mixed.main.listCode 9 0 (-1)).map Listing.offset? =
        spans.map (fun span => some (span.1 : Int)) ∧
      spans.flatMap (fun span => List.range' span.1 span.2) = List.range 9 ∧ spans.length = 5 := by
  obtain ⟨lists, cuts⟩ := listing_tells Mixed.main
  constructor
  · obtain ⟨text, length, listed, _, _, tells⟩ := lists 3 (by decide)
    obtain ⟨frame, top, chunk, at_⟩ : ∃ frame, (Mixed.after 1).frames.top? = some frame ∧
        frame.chunk = Mixed.main ∧ frame.ip = 3 := ⟨_, rfl, rfl, rfl⟩
    have fetches : (Mixed.after 1).Fetches frame ⟨.jumpIfFalse8, 1⟩ :=
      ⟨top, by rw [at_]; decide, by rw [chunk, at_]; decide⟩
    have told := tells Mixed.setup (Mixed.after 1) frame _ fetches chunk at_
    obtain ⟨target, m', printed, stepped, moved⟩ := told.jumps rfl fun _ => ⟨.bool false, rfl, rfl⟩
    have after : m' = Mixed.after 2 := by
      have again : runSteps Mixed.setup 1 (Mixed.after 1) = (.unfinished, Mixed.after 2) := rfl
      rw [runSteps, stepped] at again
      exact congrArg Prod.snd again
    subst after
    have landed : (Mixed.after 2).frames.top?.map (·.ip) = some 6 := by decide +kernel
    cases landed.symm.trans moved
    exact ⟨text, length, listed, told.operand (by decide), printed, stepped, moved⟩
  · obtain ⟨spans, offsets, _, pieces⟩ := cuts 9 (-1) (by decide)
    refine ⟨spans, offsets, pieces, ?_⟩
    have count := congrArg List.length offsets
    rw [List.length_map, List.length_map] at count
    rw [← count]
    decide

end Machine

end TableMachine
