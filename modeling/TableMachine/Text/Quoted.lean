import TableMachine.Text.Utf8
import TableMachine.Text.Printable

/-! # Quoted texts

A quoted text stands between double quotes. Printable code points are written as they are, a quote
and a backslash after a backslash, seven control characters by a letter, and everything else,
stray bytes included, by a hexadecimal escape. The result is printable whatever the text holds.
-/

namespace TableMachine.Text

namespace Quoted

/-- A backslash. -/
def backslash : UInt8 := 0x5C

/-- `digits` lower-case hexadecimal places of `n`. -/
def places (count n : Nat) : Text :=
  let body := digits 16 n
  List.replicate (count - body.length) 0x30 ++ body

/-- The letter that names a control character in an escape. -/
def letter? (code : Nat) : Option UInt8 :=
  match code with
  | 0x07 => some 0x61
  | 0x08 => some 0x62
  | 0x0C => some 0x66
  | 0x0A => some 0x6E
  | 0x0D => some 0x72
  | 0x09 => some 0x74
  | 0x0B => some 0x76
  | _ => none

/-- A code point as it stands between the quotes. -/
def point (code : Nat) : Text :=
  if code = 0x22 || code = 0x5C then [backslash, code.toUInt8]
  else if isPrintable code then encodeRune code
  else match letter? code with
    | some b => [backslash, b]
    | none =>
      if code < 0x20 || code = 0x7F then backslash :: 0x78 :: places 2 code
      else if code < 0x10000 then backslash :: 0x75 :: places 4 code
      else backslash :: 0x55 :: places 8 code

/-- A unit of the text as it stands between the quotes. -/
def unit : Rune → Text
  | .point code => point code
  | .stray byte => backslash :: 0x78 :: places 2 byte.toNat

end Quoted

/-- The text between double quotes, escaped. -/
def quoted (text : Text) : Text := 0x22 :: text.runes.flatMap Quoted.unit ++ [0x22]

end TableMachine.Text
