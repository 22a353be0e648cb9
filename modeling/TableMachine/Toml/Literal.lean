import TableMachine.Number.Scientific
import TableMachine.Toml.Moment
import TableMachine.Toml.Value

/-! # Literals without quotes

Integers in four bases, floats, truth values and moments. Underscores may stand between digits, a
decimal has no leading zeros, an integer fits 64 bits and a float is finite unless it is written as
a word.
-/

namespace TableMachine.Toml.Literal

/-- Digits with single underscores between them, as a number. `complete` says whether the text may
end, or an underscore follow, here. -/
def digitsFrom? (base : Nat) : (complete : Bool) → (read : Nat) → Text → Option Nat
  | complete, read, [] => if complete then some read else none
  | complete, read, b :: rest =>
    if b = 0x5F then (if complete then digitsFrom? base false read rest else none)
    else match Text.hexDigit? b with
      | some d => if d < base then digitsFrom? base true (read * base + d) rest else none
      | none => none

/-- Digits with single underscores between them, as a number. -/
def digits? (base : Nat) (t : Text) : Option Nat := digitsFrom? base false 0 t

/-- Decimal digits without leading zeros. -/
def decimal? (t : Text) : Option Nat :=
  if t.head? = some 0x30 && 1 < t.length then none else digits? 10 t

/-- A sign and what follows it; no sign counts as plus. -/
def splitSign (t : Text) : Bool × Text :=
  match t with
  | [] => (false, [])
  | b :: rest => if b = 0x2D then (true, rest) else if b = 0x2B then (false, rest) else (false, t)

/-- Whether the integer fits 64 bits. -/
def fits (i : Int) : Bool := -(pow2 63 : Int) ≤ i && i < pow2 63

/-- The absolute value of an integer and its sign. -/
def magnitude? (t : Text) : Option (Bool × Nat) :=
  match t with
  | 0x30 :: 0x78 :: rest => (digits? 16 rest).map fun n => (false, n)
  | 0x30 :: 0x6F :: rest => (digits? 8 rest).map fun n => (false, n)
  | 0x30 :: 0x62 :: rest => (digits? 2 rest).map fun n => (false, n)
  | _ => (decimal? (splitSign t).2).map fun n => ((splitSign t).1, n)

/-- An integer. -/
def integer? (t : Text) : Option Int := do
  let (negative, n) ← magnitude? t
  let i : Int := if negative then -n else n
  if fits i then some i else none

/-- The words for floats that are not finite. -/
def word? (t : Text) : Option Number :=
  let (negative, name) := splitSign t
  if name = Text.ofString "inf" then some (Number.infinity negative)
  else if name = Text.ofString "nan" then some Number.nan
  else none

/-- What stands before and after the first byte that satisfies the test. -/
def cut? (test : UInt8 → Bool) (t : Text) : Option (Text × Text) :=
  let before := t.takeWhile fun b => !test b
  if before.length < t.length then some (before, t.drop (before.length + 1)) else none

/-- The digits of a text without its underscores. -/
def placeCount (t : Text) : Nat := t.countP Moment.isDigit

/-- The digits of a float as an integer, and how many of them are behind the point. -/
def mantissa? (t : Text) : Option (Nat × Nat) :=
  match cut? (· == 0x2E) t with
  | none => (decimal? t).map fun n => (n, 0)
  | some (whole, fraction) => do
    let n ← decimal? whole
    let f ← digits? 10 fraction
    let places := placeCount fraction
    some (n * pow10 places + f, places)

/-- An exponent. -/
def exponent? (t : Text) : Option Int := do
  let (negative, digits) := splitSign t
  let n ← digits? 10 digits
  some (if negative then -n else n)

/-- A finite float: it has a point, an exponent or both. -/
def finite? (t : Text) : Option Number := do
  let (negative, t) := splitSign t
  let x ← match cut? (fun b => b == 0x65 || b == 0x45) t with
    | some (before, after) => do
      let (n, places) ← mantissa? before
      let e ← exponent? after
      some (Number.ofDecimal negative n (e - places))
    | none => do
      let (n, places) ← mantissa? t
      if places = 0 then none else some (Number.ofDecimal negative n (-places))
  if x.isInfinite then none else some x

/-- A literal that is no moment. -/
def plain? (t : Text) : Option Literal :=
  if t = Text.ofString "true" then some (.bool true)
  else if t = Text.ofString "false" then some (.bool false)
  else match integer? t, (word? t).orElse fun _ => finite? t with
    | some i, _ => some (.integer i)
    | none, some x => some (.float x)
    | none, none => none

/-- Whether the byte ends a literal. -/
def isStop (b : UInt8) : Bool :=
  b == 0x20 || b == 0x09 || b == 0x0A || b == 0x0D || b == 0x23 || b == 0x2C || b == 0x5D
    || b == 0x7D

/-- Whether the text begins as a moment does: digits, then a hyphen or a colon. -/
def beginsMoment (t : Text) : Bool :=
  let rest := t.dropWhile Moment.isDigit
  rest.length < t.length && (rest.head? = some 0x2D || rest.head? = some 0x3A)

/-- Whether the byte can be part of a moment. -/
def isMomentByte (b : UInt8) : Bool :=
  Moment.isDigit b || b == 0x2D || b == 0x3A || b == 0x54 || b == 0x74 || b == 0x20 || b == 0x2E
    || b == 0x5A || b == 0x7A || b == 0x2B

/-- The text without blanks at its end. -/
def trimEnd (t : Text) : Text := (t.reverse.dropWhile (· == 0x20)).reverse

/-- The literal at the beginning of a text, and the rest. -/
def read? (t : Text) : Option (Literal × Text) :=
  if beginsMoment t then
    let written := trimEnd (t.takeWhile isMomentByte)
    if Moment.isMoment (Moment.normal written) then
      some (.moment written, t.drop written.length)
    else none
  else
    let written := t.takeWhile fun b => !isStop b
    (plain? written).map fun l => (l, t.drop written.length)

end TableMachine.Toml.Literal
