import TableMachine.Number.Basic
import TableMachine.Text.Basic

/-! # The shortest decimal that reads back

Every finite number other than zero is the only number nearest to some decimals. `Decimal.shortest`
finds one with the fewest digits, and among those the one closest to the number; of two equally
close the one with the even last digit. The search is exact: the number and the ends of the interval
of reals that round to it are fractions of natural numbers.
-/

namespace TableMachine

/-- The decimal `0.d₁d₂…dₙ · 10 ^ point`, its digits without leading or trailing zeros. -/
structure Decimal where
  /-- The digits, most significant first. -/
  digits : List Nat
  /-- The power of ten that places the point before the first digit. -/
  point : Int
deriving DecidableEq, Repr

namespace Decimal

/-- The reals that round to a number, over a common denominator. -/
structure Interval where
  /-- Numerator of the number itself. -/
  value : Nat
  /-- Numerator of the lower end. -/
  lower : Nat
  /-- Numerator of the upper end. -/
  upper : Nat
  /-- The denominator of all three. -/
  denominator : Nat
  /-- Whether the ends themselves round to the number. -/
  closed : Bool

/-- The interval of a finite number other than zero. Below a power of two the gap is half as wide,
and the ends belong to the number exactly when its significand is even. -/
def Interval.ofNumber (x : Number) : Interval :=
  let m := x.significand
  -- Quarters of the unit in the last place keep all three ends whole.
  let q := x.scale - 2
  let up := pow2 q.toNat
  let down := pow2 (-q).toNat
  let gapBelow := if x.fraction = 0 && 1 < x.exponentField then 1 else 2
  { value := 4 * m * up
    lower := (4 * m - gapBelow) * up
    upper := (4 * m + 2) * up
    denominator := down
    closed := m % 2 = 0 }

/-- Whether `n / d` lies in the interval. -/
def Interval.contains (i : Interval) (n d : Nat) : Bool :=
  let low := i.lower * d
  let mid := n * i.denominator
  let high := i.upper * d
  if i.closed then low ≤ mid && mid ≤ high else low < mid && mid < high

/-- The number of decimal places of `n`; zero has none. -/
def placeCount (n : Nat) : Nat := if n = 0 then 0 else (Nat.toDigits 10 n).length

/-- The power of ten just above `n / d`: the position of the point. -/
def pointOf (n d : Nat) : Int :=
  if d ≤ n then placeCount (n / d)
  else
    -- The least `p` with `d ≤ n * 10 ^ p`, from the quotient rounded up.
    let p := placeCount ((d + n - 1) / n - 1)
    1 - (p : Int)

/-- The decimal with the given significant digits and position of the point. -/
def ofDigits (n : Nat) (point : Int) : Decimal :=
  let places := (Nat.toDigits 10 n).map fun c => c.toNat - 48
  let kept := (places.reverse.dropWhile (· == 0)).reverse
  -- A carry into a new place moves the point.
  ⟨kept, point⟩

/-- The best decimal with `count` digits that reads back, if one does. -/
def withDigits? (i : Interval) (point : Int) (count : Nat) : Option Decimal :=
  let k := point - count
  -- The grid of step `10 ^ k`: `n` stands for `n * up / down`.
  let up := pow10 k.toNat
  let down := pow10 (-k).toNat
  let n := i.value * down / (i.denominator * up)
  let rest := 2 * (i.value * down % (i.denominator * up))
  let belowFits := i.contains (n * up) down
  let aboveFits := i.contains ((n + 1) * up) down
  let above : Decimal :=
    if n + 1 = pow10 count then ofDigits 1 (point + 1) else ofDigits (n + 1) point
  let below : Decimal := ofDigits n point
  let nearer : Decimal :=
    if rest < i.denominator * up then below
    else if i.denominator * up < rest then above
    else if n % 2 = 0 then below else above
  match belowFits, aboveFits with
  | true, true => some nearer
  | true, false => some below
  | false, true => some above
  | false, false => none

/-- The shortest decimal that reads back as the finite number `x`; zero has no digits. -/
def shortest (x : Number) : Decimal :=
  if x.isZero then ⟨[], 0⟩
  else
    let i := Interval.ofNumber x
    let point := pointOf i.value i.denominator
    -- Seventeen digits always suffice.
    ((List.range' 1 17).findSome? (withDigits? i point)).getD ⟨[], 0⟩

/-- Digits as text. -/
def digitText (digits : List Nat) : Text := digits.map fun d => (48 + d).toUInt8

/-- The decimal without an exponent. -/
def positional (d : Decimal) : Text :=
  if d.digits.isEmpty then [0x30]
  else if d.point ≤ 0 then
    Text.ofString "0." ++ List.replicate (-d.point).toNat 0x30 ++ digitText d.digits
  else
    let before := d.point.toNat
    if d.digits.length ≤ before then
      digitText d.digits ++ List.replicate (before - d.digits.length) 0x30
    else digitText (d.digits.take before) ++ 0x2E :: digitText (d.digits.drop before)

/-- The decimal with one digit before the point and an exponent of at least two places. -/
def scientific (d : Decimal) : Text :=
  let lead := digitText (d.digits.take 1)
  let rest := digitText (d.digits.drop 1)
  let exponent := d.point - 1
  let places := Text.ofNat exponent.natAbs
  let sign : UInt8 := if exponent < 0 then 0x2D else 0x2B
  lead ++ (if rest.isEmpty then [] else 0x2E :: rest) ++
    0x65 :: sign :: List.replicate (2 - places.length) 0x30 ++ places

end Decimal

end TableMachine
