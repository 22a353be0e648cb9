import TableMachine.Text.Basic
import TableMachine.Number.Decimal

/-! # Cells

A cell of a table holds nothing, a number or a text. The affinity of its column decides the form in
which it is stored.
-/

namespace TableMachine

/-- The form a column prefers to store its cells in. -/
inductive Affinity where
  /-- Numbers become texts. -/
  | text
  /-- Whole reals that fit become integers. -/
  | integer
  /-- Integers become reals. -/
  | real
deriving DecidableEq, Repr

/-- The type name of a column of the given affinity. -/
def Affinity.typeName : Affinity → Text
  | text => "TEXT"
  | integer => "INTEGER"
  | real => "REAL"

/-- A stored or offered cell. -/
inductive Cell where
  | null
  | integer (value : Int)
  | real (value : Number)
  | text (value : Text)
deriving DecidableEq, Repr

namespace Cell

/-- The number rounded to `count` significant digits, halves upward, with its point. -/
def significant (count : Nat) (x : Number) : Decimal :=
  let m := x.significand
  let up := pow2 x.scale.toNat
  let down := pow2 (-x.scale).toNat
  let point := Decimal.pointOf (m * up) down
  let k := point - count
  let n := m * up * pow10 (-k).toNat
  let d := down * pow10 k.toNat
  let whole := n / d
  let rounded := if d ≤ 2 * (n % d) then whole + 1 else whole
  if rounded = pow10 count then Decimal.ofDigits 1 (point + 1) else Decimal.ofDigits rounded point

/-- A real as text: fifteen significant digits, a point always written, an exponent when it is
below `-4` or above `14`. -/
def realText (x : Number) : Text :=
  let sign : Text := if x.isNegative then [0x2D] else []
  if x.isInfinite then sign ++ Text.ofString "Inf"
  else if x.isZero then Text.ofString "0.0"
  else
    let d := significant 15 x
    let exponent := d.point - 1
    if exponent < -4 || 14 < exponent then
      let one := if d.digits.length = 1 then { d with digits := d.digits ++ [0] } else d
      sign ++ one.scientific
    else if d.point ≤ 0 || d.point < d.digits.length then sign ++ d.positional
    else sign ++ d.positional ++ Text.ofString ".0"

/-- Whether an integer column takes a whole real of this value for an integer: it lies strictly
between the least and the greatest of 64 bits. -/
def fitsInteger (i : Int) : Bool := -(pow2 63 : Int) < i && i < (pow2 63 : Int) - 1

/-- The cell as a column of the given affinity stores it. Not-a-number is stored as null. -/
def stored (affinity : Affinity) : Cell → Cell
  | null => null
  | text t => text t
  | integer i =>
    match affinity with
    | .text => text (Text.ofInt i)
    | .integer => integer i
    | .real => real (Number.ofInt i)
  | real x =>
    if x.isNaN then null
    else match affinity with
      | .text => text (realText x)
      | .integer => if x.isInteger && fitsInteger x.toInt then integer x.toInt else real x
      | .real => real (if x.isZero then .zero else x)

end Cell

end TableMachine
