import TableMachine.Number.Power

/-! # Numbers

A number is a binary64 word. Its classes, equality and order are defined on the fields of the
word by exact integer arithmetic, so that they can be reasoned about without the host's floating
point. Only the four rounding operations and the powers of numbers other than zero use the host's
arithmetic.
-/

namespace TableMachine

/-- A binary64 word. Two words may stand for one number: zero has two signs. -/
structure Number where
  /-- Sign, exponent and fraction, from the highest bit down. -/
  bits : UInt64
deriving DecidableEq, Repr, Inhabited

namespace Number

/-! ## Fields and classes -/

/-- Whether the sign bit is set. -/
def isNegative (x : Number) : Bool := pow2 63 ≤ x.bits.toNat

/-- The word without its sign bit. -/
def magnitude (x : Number) : Nat := x.bits.toNat % pow2 63

/-- The exponent field. -/
def exponentField (x : Number) : Nat := x.magnitude / pow2 52

/-- The fraction field. -/
def fraction (x : Number) : Nat := x.magnitude % pow2 52

/-- The magnitude of the infinities. -/
def infinityMagnitude : Nat := 2047 * pow2 52

/-- Not a number. -/
def isNaN (x : Number) : Bool := infinityMagnitude < x.magnitude

/-- Either infinity. -/
def isInfinite (x : Number) : Bool := x.magnitude = infinityMagnitude

/-- Neither an infinity nor not a number. -/
def isFinite (x : Number) : Bool := x.magnitude < infinityMagnitude

/-- Either zero. -/
def isZero (x : Number) : Bool := x.magnitude = 0

/-- The word with the given sign and magnitude. -/
def ofMagnitude (negative : Bool) (magnitude : Nat) : Number :=
  ⟨UInt64.ofNat (magnitude % pow2 63 + if negative then pow2 63 else 0)⟩

/-- Positive zero. -/
def zero : Number := ⟨0⟩

/-- The quiet not-a-number with an empty payload. -/
def nan : Number := ⟨0x7FF8000000000000⟩

/-- The infinity of the given sign. -/
def infinity (negative : Bool) : Number := ofMagnitude negative infinityMagnitude

/-! ## Equality and order -/

/-- The place of a number among all numbers; both zeros share one. -/
def rank (x : Number) : Int := if x.isNegative then -(x.magnitude : Int) else x.magnitude

/-- Numeric equality: not a number equals nothing, and the zeros are equal. -/
def equals (x y : Number) : Bool := !x.isNaN && !y.isNaN && x.rank == y.rank

/-- Numeric order: not a number is below and above nothing. -/
def less (x y : Number) : Bool := !x.isNaN && !y.isNaN && x.rank < y.rank

/-! ## Exact values -/

/-- The integer that, scaled by `2 ^ scale`, is the absolute value of a finite number. -/
def significand (x : Number) : Nat :=
  if x.exponentField = 0 then x.fraction else x.fraction + pow2 52

/-- The power of two that scales the significand. -/
def scale (x : Number) : Int := (max x.exponentField 1 : Nat) - 1075

/-- `m / 2 ^ shift` to the nearest integer, a half going to the even neighbour. -/
def roundShift (m shift : Nat) : Nat :=
  let whole := m / pow2 shift
  let twice := 2 * (m % pow2 shift)
  if twice < pow2 shift then whole
  else if pow2 shift < twice then whole + 1
  else whole + whole % 2

/-- The number nearest to `m * 2 ^ q`, ties to the even significand, infinite when out of range. -/
def ofScaled (negative : Bool) (m : Nat) (q : Int) : Number :=
  if m = 0 then ofMagnitude negative 0
  else
    -- The unit in the last place: 53 bits below the leading one, and none below the least step.
    let unit : Int := max (q + Nat.log2 m - 52) (-1074)
    let kept := if unit ≤ q then m * pow2 (q - unit).toNat else roundShift m (unit - q).toNat
    ofMagnitude negative (min ((unit + 1074).toNat * pow2 52 + kept) infinityMagnitude)

/-- The number nearest to an integer. -/
def ofInt (i : Int) : Number := ofScaled (i < 0) i.natAbs 0

/-- The number nearest to a natural number. -/
def ofNat (n : Nat) : Number := ofScaled false n 0

/-- The integer part of the absolute value of a finite number. -/
def wholePart (x : Number) : Nat :=
  if 0 ≤ x.scale then x.significand * pow2 x.scale.toNat
  else x.significand / pow2 (-x.scale).toNat

/-- Whether a finite number has no fractional part. -/
def isWhole (x : Number) : Bool :=
  0 ≤ x.scale || x.significand % pow2 (-x.scale).toNat == 0

/-- Finite and without fractional part. -/
def isInteger (x : Number) : Bool := x.isFinite && x.isWhole

/-- The integer a finite number becomes when its fractional part is dropped. -/
def toInt (x : Number) : Int := if x.isNegative then -(x.wholePart : Int) else x.wholePart

/-- The number with its fractional part dropped. Infinities and not-a-number stay. -/
def truncate (x : Number) : Number :=
  if x.isFinite then ofScaled x.isNegative x.wholePart 0 else x

/-- The greatest whole number that is not above. Infinities and not-a-number stay. -/
def floor (x : Number) : Number :=
  if x.isFinite then
    let up := if x.isNegative && !x.isWhole then 1 else 0
    ofScaled x.isNegative (x.wholePart + up) 0
  else x

/-- The number of the other sign. -/
def negate (x : Number) : Number := ofMagnitude (!x.isNegative) x.magnitude

/-- The remainder of the division that rounds its quotient toward zero; it has the sign of the
dividend, also when it is zero. -/
def remainder (x y : Number) : Number :=
  if x.isNaN || y.isNaN || x.isInfinite || y.isZero then nan
  else if y.isInfinite then x
  else
    let low := min x.scale y.scale
    let dividend := x.significand * pow2 (x.scale - low).toNat
    let divisor := y.significand * pow2 (y.scale - low).toNat
    ofScaled x.isNegative (dividend % divisor) low

/-! ## The host's arithmetic -/

/-- The word as a floating-point number of the host. -/
def toFloat (x : Number) : Float := Float.ofBits x.bits

/-- The word of a floating-point number of the host. -/
def ofFloat (f : Float) : Number := ⟨f.toBits⟩

/-- The sum, rounded. -/
def add (x y : Number) : Number := ofFloat (x.toFloat + y.toFloat)

/-- The difference, rounded. -/
def subtract (x y : Number) : Number := ofFloat (x.toFloat - y.toFloat)

/-- The product, rounded. -/
def multiply (x y : Number) : Number := ofFloat (x.toFloat * y.toFloat)

/-- The quotient, rounded. -/
def divide (x y : Number) : Number := ofFloat (x.toFloat / y.toFloat)

/-- A power of either zero. Odd exponents keep its sign, and negative ones make it an infinity. -/
def zeroPower (x y : Number) : Number :=
  let negative := x.isNegative && y.isInteger && y.wholePart % 2 == 1
  if y.isNaN then nan
  else if y.isZero then ofNat 1
  else if y.isNegative then infinity negative
  else ofMagnitude negative 0

/-- The power. -/
def power (x y : Number) : Number :=
  if x.isZero then zeroPower x y else ofFloat (x.toFloat ^ y.toFloat)

end Number

end TableMachine
