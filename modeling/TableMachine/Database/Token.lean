import TableMachine.Database.Script

/-! # Reading statements

A statement is read as words, names between double quotes, texts between apostrophes, and single
bytes for all else; this is all that the statements of this library hold. Within quotes a doubled
quote stands for one. A zero byte ends a statement, and a quotation that it interrupts is not closed.
-/

namespace TableMachine.Statement

/-- A part of a statement. -/
inductive Token where
  /-- A keyword, a type, a plain name or a number. -/
  | word (text : Text)
  /-- A name between double quotes. -/
  | name (text : Text)
  /-- A text between apostrophes. -/
  | literal (text : Text)
  /-- Any other byte. -/
  | symbol (byte : UInt8)
deriving DecidableEq, Repr

/-- Whether a byte only separates parts. -/
def isBlank (b : UInt8) : Bool := [0x20, 0x09, 0x0A, 0x0C, 0x0D].contains b

/-- Whether a byte belongs to a word: a letter, a digit, an underscore, a dollar sign, or a byte
beyond ASCII. -/
def isWordByte (b : UInt8) : Bool :=
  (0x61 ≤ Text.lowerByte b && Text.lowerByte b ≤ 0x7A) || (0x30 ≤ b && b ≤ 0x39) || b == 0x5F
    || b == 0x24 || 0x80 ≤ b

/-- What stands before the closing delimiter, and what follows it. -/
def unquote? (delimiter : UInt8) : Text → Option (Text × Text)
  | [] => none
  | b :: rest =>
    if b = 0 then none
    else if b = delimiter then
      match rest with
      | [] => some ([], [])
      | c :: rest =>
        if c = delimiter then
          (unquote? delimiter rest).map fun (text, after) => (delimiter :: text, after)
        else some ([], c :: rest)
    else (unquote? delimiter rest).map fun (text, after) => (b :: text, after)

section

variable {delimiter b : UInt8} {rest : Text}

theorem unquote?_closed (delimits : delimiter ≠ 0) (apart : rest.head? ≠ some delimiter) :
    unquote? delimiter (delimiter :: rest) = some ([], rest) := by
  unfold unquote?
  rw [if_neg delimits, if_pos rfl]
  cases rest with
  | nil => rfl
  | cons c rest => exact if_neg fun same => apart (congrArg some same)

theorem unquote?_doubled (delimits : delimiter ≠ 0) (rest : Text) :
    unquote? delimiter (delimiter :: delimiter :: rest) =
      (unquote? delimiter rest).map fun (text, after) => (delimiter :: text, after) := by
  rw [unquote?.eq_def]
  simp only [if_neg delimits, if_true]

theorem unquote?_inside (nonzero : b ≠ 0) (inside : b ≠ delimiter) (rest : Text) :
    unquote? delimiter (b :: rest) =
      (unquote? delimiter rest).map fun (text, after) => (b :: text, after) := by
  rw [unquote?.eq_def]
  simp only [if_neg nonzero, if_neg inside]

end

/-- The part that a text begins with, and what follows it. -/
def next? : Text → Option (Token × Text)
  | [] => none
  | b :: rest =>
    if b = quote then (unquote? quote rest).map fun (text, after) => (.name text, after)
    else if b = apostrophe then
      (unquote? apostrophe rest).map fun (text, after) => (.literal text, after)
    else if isWordByte b then
      some (.word (b :: rest.takeWhile isWordByte), rest.dropWhile isWordByte)
    else some (.symbol b, rest)

theorem length_of_unquote? {delimiter : UInt8} {text inside after : Text}
    (found : unquote? delimiter text = some (inside, after)) : after.length < text.length := by
  fun_induction unquote? delimiter text generalizing inside with
  | case1 => cases found
  | case2 => cases found
  | case3 =>
      cases found
      simp
  | case4 rest _ ih =>
      obtain ⟨⟨_, _⟩, deeper, same⟩ := Option.map_eq_some_iff.mp found
      cases same
      have := ih deeper
      simp only [List.length_cons]
      omega
  | case5 =>
      cases found
      simp
  | case6 _ _ _ _ ih =>
      obtain ⟨⟨_, _⟩, deeper, same⟩ := Option.map_eq_some_iff.mp found
      cases same
      have := ih deeper
      simp only [List.length_cons]
      omega

theorem length_of_next? {text after : Text} {token : Token} (found : next? text = some (token, after)) :
    after.length < text.length := by
  cases text with
  | nil => cases found
  | cons b rest =>
      rw [next?] at found
      rw [List.length_cons]
      by_cases quotes : b = quote
      · rw [if_pos quotes] at found
        obtain ⟨⟨_, _⟩, inside, same⟩ := Option.map_eq_some_iff.mp found
        cases same
        exact Nat.lt_succ_of_lt (length_of_unquote? inside)
      rw [if_neg quotes] at found
      by_cases apostrophes : b = apostrophe
      · rw [if_pos apostrophes] at found
        obtain ⟨⟨_, _⟩, inside, same⟩ := Option.map_eq_some_iff.mp found
        cases same
        exact Nat.lt_succ_of_lt (length_of_unquote? inside)
      rw [if_neg apostrophes] at found
      by_cases word : isWordByte b
      · rw [if_pos word] at found
        cases found
        exact Nat.lt_succ_of_le (List.dropWhile_sublist isWordByte).length_le
      · rw [if_neg word] at found
        cases found
        exact Nat.lt_succ_self _

/-- The parts of a statement in their order; none where a quotation is not closed. -/
def tokens? : Text → Option (List Token)
  | [] => some []
  | b :: rest =>
    if b = 0 then some []
    else if isBlank b then tokens? rest
    else match _found : next? (b :: rest) with
      | none => none
      | some (token, after) => (tokens? after).map (token :: ·)
termination_by text => text.length
decreasing_by
  · simp
  · exact length_of_next? ‹_›

end TableMachine.Statement
