import TableMachine.Number.Decimal

/-! # How numbers are shown

Programs see a number without an exponent: `display`. A listing shows a constant with an exponent
when it is large or small: `compact`. Both write the shortest decimal that reads back.
-/

namespace TableMachine.Number

/-- Magnitudes below this are written as integers when they are whole. -/
def wholeLimit : Nat := pow10 18

/-- A sign and the text of an absolute value. -/
def signed (negative : Bool) (text : Text) : Text := if negative then 0x2D :: text else text

/-- The text of a number in a running program: whole numbers below `10 ^ 18` without a fractional
part and zero without a sign, everything else positional with the fewest digits. -/
def display (x : Number) : Text :=
  if x.isNaN then Text.ofString "NaN"
  else if x.isInfinite then Text.ofString (if x.isNegative then "-inf" else "inf")
  else if x.isWhole && x.wholePart < wholeLimit then Text.ofInt x.toInt
  else signed x.isNegative (Decimal.shortest x).positional

/-- The text of a number in a listing: positional when the exponent is at least `-4` and below `6`,
else with an exponent; zero keeps its sign. -/
def compact (x : Number) : Text :=
  if x.isNaN then Text.ofString "NaN"
  else if x.isInfinite then Text.ofString (if x.isNegative then "-Inf" else "+Inf")
  else
    let d := Decimal.shortest x
    let exponent := d.point - 1
    let body :=
      if !d.digits.isEmpty && (exponent < -4 || 6 ≤ exponent) then d.scientific
      else d.positional
    signed x.isNegative body

end TableMachine.Number
