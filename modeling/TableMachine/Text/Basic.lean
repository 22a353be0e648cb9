/-! # Texts as strings of bytes

A program may build, compare and cut texts that are not valid UTF-8, so a text is a list of bytes
and every operation here is bytewise. Valid UTF-8 is a property, decided in `Text.Utf8`.
This module holds the writing of integers; numbers with fractions are written in `Number.Display`.
-/

namespace TableMachine

/-- A text is a list of bytes. -/
abbrev Text := List UInt8

namespace Text

/-- The UTF-8 bytes of a string. -/
def ofString (s : String) : Text := s.toUTF8.data.toList

instance : Coe String Text := ⟨ofString⟩

/-! Texts are ordered by their bytes. -/

instance : Std.IsLinearOrder Text := inferInstance

instance : Std.LawfulOrderLT Text := inferInstance

/-- The parts in order, with nothing between them. -/
def concat (parts : List Text) : Text := parts.flatten

/-- The parts in order, with `separator` between neighbours. -/
def joinWith (separator : Text) (parts : List Text) : Text := List.intercalate separator parts

/-- `text` written `count` times. -/
def repeated (count : Nat) (text : Text) : Text := (List.replicate count text).flatten

/-- Whether `text` begins with `start`. -/
def startsWith (text start : Text) : Bool := start.isPrefixOf text

/-- `text` preceded by as many blanks as bring it to `width` bytes. -/
def padLeft (width : Nat) (text : Text) : Text :=
  List.replicate (width - text.length) 0x20 ++ text

/-- Digits of `n` in `base`, most significant first, in lower case. -/
def digits (base n : Nat) : Text := (Nat.toDigits base n).map fun c => c.toNat.toUInt8

/-- A natural number in decimal. -/
def ofNat (n : Nat) : Text := digits 10 n

/-- An integer in decimal, with a minus sign when it is negative. -/
def ofInt : Int → Text
  | .ofNat n => ofNat n
  | .negSucc n => 0x2D :: ofNat (n + 1)

/-- An integer in decimal with its sign always written. -/
def ofIntSigned (i : Int) : Text := if 0 ≤ i then 0x2B :: ofInt i else ofInt i

/-- The upper-case form of an ASCII letter; other bytes stay as they are. -/
def upperByte (b : UInt8) : UInt8 := if 0x61 ≤ b ∧ b ≤ 0x7A then b - 0x20 else b

/-- The lower-case form of an ASCII letter; other bytes stay as they are. -/
def lowerByte (b : UInt8) : UInt8 := if 0x41 ≤ b ∧ b ≤ 0x5A then b + 0x20 else b

/-- ASCII letters in lower case. -/
def lower (text : Text) : Text := text.map lowerByte

/-- The text in a form that it shares with every other spelling that differs in the case of ASCII
letters only. The long s and the Kelvin sign count as such spellings. -/
def folded : Text → Text
  | 0xC5 :: 0xBF :: rest => 0x73 :: folded rest
  | 0xE2 :: 0x84 :: 0xAA :: rest => 0x6B :: folded rest
  | b :: rest => lowerByte b :: folded rest
  | [] => []

/-- An integer in upper-case hexadecimal, filled with zeros to `width` places of which a minus
sign takes one. -/
def ofIntHex (width : Nat) (i : Int) : Text :=
  let body := (digits 16 i.natAbs).map upperByte
  let sign : Text := if i < 0 then [0x2D] else []
  sign ++ List.replicate (width - sign.length - body.length) 0x30 ++ body

/-- A truth value as a word. -/
def ofBool (b : Bool) : Text := if b then ofString "true" else ofString "false"

/-- `text` with every occurrence of `byte` replaced by `by_`. -/
def replaceByte (byte : UInt8) (by_ : Text) (text : Text) : Text :=
  text.flatMap fun b => if b = byte then by_ else [b]

/-- The last byte of `text` that equals `byte` splits it: what stands before, and what after. -/
def splitLast? (byte : UInt8) (text : Text) : Option (Text × Text) :=
  let tail := text.reverse.takeWhile (· != byte)
  if tail.length = text.length then none
  else some ((text.reverse.drop (tail.length + 1)).reverse, tail.reverse)

/-- The pieces of `text` between occurrences of `byte`; there is always at least one. -/
def splitOn (byte : UInt8) : Text → List Text
  | [] => [[]]
  | b :: rest =>
    if b = byte then [] :: splitOn byte rest
    else match splitOn byte rest with
      | [] => [[b]]
      | piece :: pieces => (b :: piece) :: pieces

theorem splitOn_ne_nil (byte : UInt8) (text : Text) : splitOn byte text ≠ [] := by
  cases text with
  | nil => simp [splitOn]
  | cons b rest =>
      unfold splitOn
      split
      · simp
      · split <;> simp

/-- A byte to split at parts the pieces before it from those after it. -/
theorem splitOn_append (byte : UInt8) (before after : Text) :
    splitOn byte (before ++ byte :: after) = splitOn byte before ++ splitOn byte after := by
  induction before with
  | nil => simp [splitOn]
  | cons b rest ih =>
      rw [List.cons_append, splitOn, splitOn, ih]
      by_cases same : b = byte
      · rw [if_pos same, if_pos same, List.cons_append]
      · rw [if_neg same, if_neg same]
        cases pieces : splitOn byte rest with
        | nil => exact absurd pieces (splitOn_ne_nil byte rest)
        | cons piece pieces => rfl

theorem splitOn_of_not_mem {byte : UInt8} {text : Text} (absent : byte ∉ text) :
    splitOn byte text = [text] := by
  induction text with
  | nil => rfl
  | cons b rest ih =>
      rw [List.mem_cons, not_or] at absent
      rw [splitOn, if_neg (Ne.symm absent.1), ih absent.2]

/-- The byte to split at stands in none of the pieces. -/
theorem not_mem_of_mem_splitOn {byte : UInt8} {text piece : Text}
    (member : piece ∈ splitOn byte text) : byte ∉ piece := by
  induction text generalizing piece with
  | nil =>
      rw [splitOn, List.mem_singleton] at member
      simp [member]
  | cons b rest ih =>
      unfold splitOn at member
      split at member
      · rcases List.mem_cons.mp member with rfl | later
        · exact List.not_mem_nil
        · exact ih later
      · rename_i other
        cases pieces : splitOn byte rest with
        | nil => exact absurd pieces (splitOn_ne_nil byte rest)
        | cons first later =>
            rw [pieces] at member ih
            rcases List.mem_cons.mp member with rfl | further
            · rw [List.mem_cons, not_or]
              exact ⟨Ne.symm other, ih List.mem_cons_self⟩
            · exact ih (List.mem_cons_of_mem _ further)

/-- The value of a hexadecimal digit. -/
def hexDigit? (b : UInt8) : Option Nat :=
  let low := lowerByte b
  if 0x30 ≤ b && b ≤ 0x39 then some (b.toNat - 0x30)
  else if 0x61 ≤ low && low ≤ 0x66 then some (low.toNat - 0x57)
  else none

/-- Two lower-case hexadecimal digits for each byte. -/
def hexadecimal (text : Text) : Text :=
  text.flatMap fun b =>
    let pair := digits 16 b.toNat
    List.replicate (2 - pair.length) 0x30 ++ pair

end Text

end TableMachine
