/-! # Powers of two and ten

Words, formats and decimals are measured in these.
-/

namespace TableMachine

/-- The power of two with the given exponent. -/
abbrev pow2 (exponent : Nat) : Nat := Nat.pow 2 exponent

/-- The power of ten with the given exponent. -/
abbrev pow10 (exponent : Nat) : Nat := Nat.pow 10 exponent

/-- The number of values that `count` bytes can hold. -/
abbrev pow256 (count : Nat) : Nat := Nat.pow 256 count

end TableMachine
