import TableMachine.Value.Heap

/-! # Structural equality

Arrays, objects and tables are equal when their contents are; a table and an object also when they
are one and the same. Column references are equal when they name one column of one table. The name
of a table does not count.

A comparison that ends never meets the same pair of containers twice on one way down, so the depth
it needs is bounded by the square of the number of containers.
-/

namespace TableMachine.Value

/-- Whether two lists have one length and `same` holds at each position. -/
def pairwise (same : Value → Value → Bool) : List Value → List Value → Bool
  | [], [] => true
  | x :: xs, y :: ys => same x y && pairwise same xs ys
  | _, _ => false

/-- Whether two lists of rows have one length and their rows are pairwise the same. -/
def rowsPairwise (same : Value → Value → Bool) : List (List Value) → List (List Value) → Bool
  | [], [] => true
  | x :: xs, y :: ys => pairwise same x y && rowsPairwise same xs ys
  | _, _ => false

/-- Whether every field of the first object has a counterpart in the second. -/
def fieldsMatch (same : Value → Value → Bool) (a b : Object) : Bool :=
  a.entries.all fun (key, x) =>
    match b.get? key with
    | some y => same x y
    | none => false

/-- Equality down to the given depth. -/
def equalWithin (heap : Heap) : (depth : Nat) → Value → Value → Bool
  | 0, _, _ => false
  | depth + 1, a, b =>
    match a, b with
    | .null, .null => true
    | .number x, .number y => x.equals y
    | .bool x, .bool y => x == y
    | .string x, .string y => x == y
    | .path x, .path y => x == y
    | .function i, .function j => i == j
    | .native i, .native j => i == j
    | .array r, .array s =>
      pairwise (equalWithin heap depth) (heap.array r).toList (heap.array s).toList
    | .object r, .object s =>
      r == s || ((heap.object r).size == (heap.object s).size
        && fieldsMatch (equalWithin heap depth) (heap.object r) (heap.object s))
    | .table r, .table s =>
      r == s || ((heap.table r).headers == (heap.table s).headers
        && rowsPairwise (equalWithin heap depth) (heap.table r).rows (heap.table s).rows)
    | .column r x, .column s y => r == s && x == y
    | _, _ => false

/-- The depth that every comparison that ends stays within. -/
def comparisonDepth (heap : Heap) : Nat := heap.size * heap.size + 2

/-- Structural equality. -/
def equal (heap : Heap) (a b : Value) : Bool := equalWithin heap (comparisonDepth heap) a b

end TableMachine.Value
