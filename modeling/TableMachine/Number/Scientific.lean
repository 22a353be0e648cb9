import TableMachine.Number.Basic

/-! # Reading a decimal

The number nearest to a decimal `m · 10 ^ e`. A quotient is computed to more binary places than a
number keeps, with one place more that is set when anything was left over, so that rounding it
gives what rounding the exact quotient would.
-/

namespace TableMachine.Number

/-- Decimals with more places before the point than this are beyond every number. -/
def mostPlaces : Int := 400

/-- The number nearest to `m / d`, for a positive `d`. -/
def ofQuotient (negative : Bool) (m d : Nat) : Number :=
  let shift := Nat.log2 d + 66
  let scaled := m * pow2 shift
  let rest := if scaled % d = 0 then 0 else 1
  ofScaled negative (2 * (scaled / d) + rest) (-(shift + 1 : Nat))

/-- The number nearest to `m · 10 ^ e`. -/
def ofDecimal (negative : Bool) (m : Nat) (e : Int) : Number :=
  let places : Int := (Nat.toDigits 10 m).length + e
  if m = 0 || places < -mostPlaces then ofMagnitude negative 0
  else if mostPlaces < places then infinity negative
  else if 0 ≤ e then ofScaled negative (m * pow10 e.toNat) 0
  else ofQuotient negative m (pow10 (-e).toNat)

end TableMachine.Number
