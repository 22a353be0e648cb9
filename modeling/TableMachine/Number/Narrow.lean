import TableMachine.Number.Basic

/-! # Narrower formats

A number that a format with fewer bits holds exactly can be stored there and read back unchanged.
`pack?` finds the narrow word, `unpack` reads one.
-/

namespace TableMachine.Number

/-- A binary format: how many bits its fraction has, and its range of exponents. -/
structure Format where
  /-- Bits of the fraction field. -/
  fractionBits : Nat
  /-- Bits of the exponent field. -/
  exponentBits : Nat

namespace Format

/-- The format of two bytes. -/
def half : Format := ⟨10, 5⟩

/-- The format of four bytes. -/
def single : Format := ⟨23, 8⟩

/-- The exponent of the leading bit of the greatest numbers. -/
def maxExponent (f : Format) : Int := (pow2 (f.exponentBits - 1) : Int) - 1

/-- The power of two that all numbers of the format are multiples of. -/
def leastScale (f : Format) : Int := (2 : Int) - pow2 (f.exponentBits - 1) - f.fractionBits

/-- The word without sign of the infinities. -/
def infinity (f : Format) : Nat := (pow2 f.exponentBits - 1) * pow2 f.fractionBits

/-- The sign bit. -/
def signBit (f : Format) : Nat := pow2 (f.fractionBits + f.exponentBits)

/-- The word of a finite number that the format holds exactly. -/
def pack? (f : Format) (x : Number) : Option Nat :=
  let sign := if x.isNegative then f.signBit else 0
  if x.significand = 0 then some sign
  else
    let top : Int := x.scale + Nat.log2 x.significand
    if f.maxExponent < top then none
    else
      let unit := max (top - f.fractionBits) f.leastScale
      let place := (unit - f.leastScale).toNat * pow2 f.fractionBits
      if unit ≤ x.scale then
        some (sign + place + x.significand * pow2 (x.scale - unit).toNat)
      else
        let step := pow2 (unit - x.scale).toNat
        if x.significand % step = 0 then some (sign + place + x.significand / step) else none

/-- The number of a word. -/
def unpack (f : Format) (word : Nat) : Number :=
  let negative := f.signBit ≤ word
  let body := word % f.signBit
  let exponent := body / pow2 f.fractionBits
  let fraction := body % pow2 f.fractionBits
  if f.infinity < body then nan
  else if body = f.infinity then infinity_ negative
  else if exponent = 0 then ofScaled negative fraction f.leastScale
  else ofScaled negative (fraction + pow2 f.fractionBits) (f.leastScale + exponent - 1)
where
  /-- The infinity of the given sign. -/
  infinity_ (negative : Bool) : Number := Number.infinity negative

end Format

end TableMachine.Number
