import TableMachine.Text.Basic

/-! # Reading a text as UTF-8

`runes` splits any text into code points and stray bytes: a byte that starts no well-formed
sequence stands alone. Well-formed means the shortest encoding of a code point below 0x110000
that is no surrogate. A text is valid when no byte is stray.
-/

namespace TableMachine.Text

/-- One unit of a text read as UTF-8. -/
inductive Rune where
  /-- A code point that was encoded in full. -/
  | point (code : Nat)
  /-- A byte that belongs to no well-formed sequence. -/
  | stray (byte : UInt8)
deriving DecidableEq, Repr

namespace Rune

/-- Whether the byte continues a sequence. -/
def isTail (b : UInt8) : Bool := 0x80 ≤ b && b ≤ 0xBF

/-- Whether the bytes are the first two of a well-formed sequence of three. -/
def startsThree (a b : UInt8) : Bool :=
  0xE0 ≤ a && a ≤ 0xEF && isTail b && (a != 0xE0 || 0xA0 ≤ b) && (a != 0xED || b ≤ 0x9F)

/-- Whether the bytes are the first two of a well-formed sequence of four. -/
def startsFour (a b : UInt8) : Bool :=
  0xF0 ≤ a && a ≤ 0xF4 && isTail b && (a != 0xF0 || 0x90 ≤ b) && (a != 0xF4 || b ≤ 0x8F)

/-- The low six bits of a continuing byte. -/
def tailBits (b : UInt8) : Nat := b.toNat % 64

/-- The code point that the bytes `a :: rest` begin with, and how many bytes of `rest` it takes. -/
def head? (a : UInt8) (rest : Text) : Option (Nat × Nat) :=
  if a < 0x80 then some (a.toNat, 0)
  else if 0xC2 ≤ a && a ≤ 0xDF then
    match rest with
    | b :: _ => if isTail b then some (a.toNat % 32 * 64 + tailBits b, 1) else none
    | [] => none
  else if 0xE0 ≤ a && a ≤ 0xEF then
    match rest with
    | b :: c :: _ =>
      if startsThree a b && isTail c then
        some (a.toNat % 16 * 4096 + tailBits b * 64 + tailBits c, 2)
      else none
    | _ => none
  else
    match rest with
    | b :: c :: d :: _ =>
      if startsFour a b && isTail c && isTail d then
        some (a.toNat % 8 * 262144 + tailBits b * 4096 + tailBits c * 64 + tailBits d, 3)
      else none
    | _ => none

end Rune

/-- The units of a text after its first `skip` bytes. -/
def runesFrom : (skip : Nat) → Text → List Rune
  | _, [] => []
  | skip + 1, _ :: rest => runesFrom skip rest
  | 0, a :: rest =>
    match Rune.head? a rest with
    | some (code, extra) => .point code :: runesFrom extra rest
    | none => .stray a :: runesFrom 0 rest

/-- The units of a text in order. -/
def runes (text : Text) : List Rune := runesFrom 0 text

/-- Whether the whole text is well-formed UTF-8. -/
def isUtf8 (text : Text) : Bool :=
  text.runes.all fun
    | .point _ => true
    | .stray _ => false

/-- The number of units, a stray byte counting as one. -/
def runeCount (text : Text) : Nat := text.runes.length

/-- The UTF-8 bytes of a code point. -/
def encodeRune (code : Nat) : Text :=
  if code < 0x80 then [code.toUInt8]
  else if code < 0x800 then [(0xC0 + code / 64).toUInt8, (0x80 + code % 64).toUInt8]
  else if code < 0x10000 then
    [(0xE0 + code / 4096).toUInt8, (0x80 + code / 64 % 64).toUInt8, (0x80 + code % 64).toUInt8]
  else
    [(0xF0 + code / 262144).toUInt8, (0x80 + code / 4096 % 64).toUInt8,
      (0x80 + code / 64 % 64).toUInt8, (0x80 + code % 64).toUInt8]

/-- The bytes a unit was read from. -/
def Rune.bytes : Rune → Text
  | .point code => encodeRune code
  | .stray byte => [byte]

end TableMachine.Text
