import TableMachine.Text.Utf8
import TableMachine.Toml.Literal

/-! # Quoted texts and keys

Four ways to quote a text: with escapes or without, on one line or on several. A text on several
lines is closed by three quotes, and up to two more before them belong to it, up to three directly
after an escaped backslash. A newline directly after the opening quotes does not, and neither does
what a backslash at the end of a line spans.
-/

namespace TableMachine.Toml

/-- Whether the byte ends a line; a carriage return is always followed by a line feed. -/
def isLineEnd (b : UInt8) : Bool := b == 0x0A || b == 0x0D

/-- Whether the byte is a blank or a tab. -/
def isBlank (b : UInt8) : Bool := b == 0x20 || b == 0x09

namespace Quoted

/-- The double quote. -/
def double : UInt8 := 0x22

/-- The apostrophe. -/
def single : UInt8 := 0x27

/-- The byte that starts an escape. -/
def backslash : UInt8 := 0x5C

/-- Whether a code point can stand in a text. -/
def isScalar (code : Nat) : Bool := code < 0xD800 || (0xDFFF < code && code < 0x110000)

/-- The code point written as `count` hexadecimal digits after the letter of an escape: its bytes,
and the length of letter and digits. -/
def codePoint? (count : Nat) (t : Text) : Option (Text × Nat) := do
  let digits ← (t.take count).mapM Text.hexDigit?
  let code := digits.foldl (fun n d => n * 16 + d) 0
  if digits.length = count && isScalar code then some (Text.encodeRune code, count + 1) else none

/-- What an escape stands for, and its length after the backslash. -/
def escape? : Text → Option (Text × Nat)
  | [] => none
  | 0x62 :: _ => some ([0x08], 1)
  | 0x74 :: _ => some ([0x09], 1)
  | 0x6E :: _ => some ([0x0A], 1)
  | 0x66 :: _ => some ([0x0C], 1)
  | 0x72 :: _ => some ([0x0D], 1)
  | 0x65 :: _ => some ([0x1B], 1)
  | 0x22 :: _ => some ([0x22], 1)
  | 0x5C :: _ => some ([0x5C], 1)
  | 0x78 :: rest => codePoint? 2 rest
  | 0x75 :: rest => codePoint? 4 rest
  | 0x55 :: rest => codePoint? 8 rest
  | _ => none

/-- A text with more in front of it, and what follows it. -/
def prepend (front : Text) (read : Text × Text) : Text × Text := (front ++ read.1, read.2)

/-- The rest of a quoted text on one line, after `skip` more bytes. -/
def lineFrom? (escapes : Bool) (quote : UInt8) : (skip : Nat) → Text → Option (Text × Text)
  | _, [] => none
  | skip + 1, _ :: rest => lineFrom? escapes quote skip rest
  | 0, b :: rest =>
    if b = quote then some ([], rest)
    else if isLineEnd b then none
    else if escapes && b == backslash then
      match escape? rest with
      | some (bytes, length) => (lineFrom? escapes quote length rest).map (prepend bytes)
      | none => none
    else (lineFrom? escapes quote 0 rest).map (prepend [b])

/-- Whether blanks and line ends follow, at least one line feed among them. -/
def endsLine (t : Text) : Bool :=
  (t.takeWhile fun b => isBlank b || isLineEnd b).contains 0x0A

/-- The number of quotes at the beginning. -/
def quoteCount (quote : UInt8) (t : Text) : Nat := (t.takeWhile (· == quote)).length

/-- How the rest of a quoted text on several lines depends on what stands before it. -/
inductive Before where
  | text
  /-- A backslash that joins lines: blanks and line ends are left out. -/
  | joint
  /-- An escaped backslash. -/
  | backslash
deriving DecidableEq, Repr

/-- The most quotes in a row that can close a text on several lines. -/
def Before.mostQuotes : Before → Nat
  | backslash => 6
  | _ => 5

/-- The rest of a quoted text on several lines, after `skip` more bytes. -/
def blockFrom? (escapes : Bool) (quote : UInt8) :
    (before : Before) → (skip : Nat) → Text → Option (Text × Text)
  | _, _, [] => none
  | before, skip + 1, _ :: rest => blockFrom? escapes quote before skip rest
  | before, 0, b :: rest =>
    if before = .joint && (isBlank b || isLineEnd b) then blockFrom? escapes quote .joint 0 rest
    else if b = quote then
      let count := quoteCount quote rest + 1
      if count < 3 then (blockFrom? escapes quote .text 0 rest).map (prepend [b])
      else if count ≤ before.mostQuotes then
        some (List.replicate (count - 3) quote, rest.drop (count - 1))
      else none
    else if escapes && b == backslash then
      if endsLine rest then blockFrom? escapes quote .joint 0 rest
      else match escape? rest with
        | some (bytes, length) =>
          let before := if bytes = [backslash] then Before.backslash else .text
          (blockFrom? escapes quote before length rest).map (prepend bytes)
        | none => none
    else (blockFrom? escapes quote .text 0 rest).map (prepend [b])

/-- The text without a newline at its beginning. -/
def dropNewline : Text → Text
  | 0x0A :: rest => rest
  | 0x0D :: 0x0A :: rest => rest
  | t => t

/-- A text quoted on one line, after its opening quote. -/
def line? (quote : UInt8) (t : Text) : Option (Text × Text) := lineFrom? (quote == double) quote 0 t

/-- The quoted text that begins with the given quote, and the rest. -/
def read? (quote : UInt8) (t : Text) : Option (Text × Text) :=
  if 3 ≤ quoteCount quote t then blockFrom? (quote == double) quote .text 0 (dropNewline (t.drop 3))
  else line? quote (t.drop 1)

end Quoted

/-! ## Keys -/

/-- A key: its last part, and the parts before it. -/
structure Key where
  parents : List Text
  last : Text
deriving DecidableEq, Repr, Inhabited

/-- All parts of a key. -/
def Key.path (key : Key) : List Text := key.parents ++ [key.last]

/-- The text without blanks at its beginning. -/
def skipBlanks (t : Text) : Text := t.dropWhile isBlank

/-- Whether the byte can be part of a key without quotes. -/
def isBare (b : UInt8) : Bool :=
  Moment.isDigit b || (0x61 ≤ Text.lowerByte b && Text.lowerByte b ≤ 0x7A) || b == 0x5F || b == 0x2D

/-- One part of a key, and the rest. -/
def keyPart? (t : Text) : Option (Text × Text) :=
  match t with
  | [] => none
  | b :: rest =>
    if b = Quoted.double || b = Quoted.single then Quoted.line? b rest
    else
      let name := t.takeWhile isBare
      if name.isEmpty then none else some (name, t.drop name.length)

/-- A key of at most `count` parts between points, and the rest, blanks left out. -/
def keyWithin? : (count : Nat) → Text → Option (Key × Text)
  | 0, _ => none
  | count + 1, t => do
    let (part, rest) ← keyPart? (skipBlanks t)
    match skipBlanks rest with
    | 0x2E :: rest => do
      let (key, rest) ← keyWithin? count rest
      some (⟨part :: key.parents, key.last⟩, rest)
    | rest => some (⟨[], part⟩, rest)

/-- A key, and the rest, blanks left out. -/
def key? (t : Text) : Option (Key × Text) := keyWithin? (t.length + 1) t

end TableMachine.Toml
