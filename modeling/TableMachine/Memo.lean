import TableMachine.Value.Basic

/-! # Memoized results

The results of a function are remembered by a key made of its arguments. A key is a text in which
each argument carries its kind and, where its length varies, its length, so that keys of different
argument lists differ. The two zeros share a key; not-a-number, which equals nothing, has none, and
neither has anything that is shared.
-/

namespace TableMachine

namespace Memo

/-- A natural number in groups of seven bits, the lowest first, all but the last group marked. -/
def variableLength (n : Nat) : Text :=
  if n < 128 then [n.toUInt8] else (128 + n % 128).toUInt8 :: variableLength (n / 128)
decreasing_by omega

/-- The `count` lowest bytes of a natural number, the lowest first. -/
def littleEndian : (count n : Nat) → Text
  | 0, _ => []
  | count + 1, n => n.toUInt8 :: littleEndian count (n / 256)

/-- The part of a key that stands for one argument. -/
def argumentKey? : Value → Option Text
  | .null => some [0]
  | .number x =>
    if x.isNaN then none
    else some (1 :: littleEndian 8 (if x.isZero then Number.zero else x).bits.toNat)
  | .bool b => some [2, if b then 1 else 0]
  | .string t => some (3 :: variableLength t.length ++ t)
  | _ => none

/-- The key of an argument list. -/
def key? (arguments : List Value) : Option Text :=
  (arguments.mapM argumentKey?).map Text.concat

end Memo

/-- The remembered results of one function, and how often they were asked for. -/
structure Memo where
  /-- Results by key, each key once. -/
  results : List (Text × Value) := []
  /-- How many questions had an answer. -/
  hits : Nat := 0
  /-- How many had none. -/
  misses : Nat := 0
deriving DecidableEq, Repr, Inhabited

namespace Memo

/-- The remembered result. -/
def find? (memo : Memo) (key : Text) : Option Value := memo.results.lookup key

/-- The memo after it was asked for a key. -/
def counted (memo : Memo) (key : Text) : Memo :=
  match memo.find? key with
  | some _ => { memo with hits := memo.hits + 1 }
  | none => { memo with misses := memo.misses + 1 }

/-- The memo with a result remembered, in place of an earlier one. -/
def store (memo : Memo) (key : Text) (value : Value) : Memo :=
  { memo with results := (key, value) :: memo.results.filter (·.1 ≠ key) }

/-- The number of remembered results. -/
def size (memo : Memo) : Nat := memo.results.length

end Memo

end TableMachine
