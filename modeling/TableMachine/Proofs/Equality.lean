import Mathlib.Data.List.Forall2
import TableMachine.Proofs.Copying
import TableMachine.Proofs.MemoKeys

/-! # Equality is a partial equivalence

Two values are similar when their kinds agree and what is inside them is the same; a value that is neither a
number nor an array is also similar to itself, whatever is inside. A comparison repeats this level by level.
So it is symmetric and transitive at every depth, and what it says about a value and itself hangs
on the numbers that are found through arrays alone. Where no container is inside itself the comparison ends
before the depth it is given, so that depth cannot be seen.

On the values that keys are made of, keys decide equality.
-/

namespace TableMachine

open Heap

/-! ## One level -/

namespace Value

variable {heap : Heap} {same same' : Value → Value → Prop} {a b c v : Value}

/-- Two values are equal as far as their own level goes, where `same` compares what is inside. -/
inductive Similar (heap : Heap) (same : Value → Value → Prop) : Value → Value → Prop where
  /-- Only numbers and arrays have to be looked into to be like themselves. -/
  | itself {v : Value} : (∀ x, v ≠ .number x) → (∀ r, v ≠ .array r) → Similar heap same v v
  | number {x y : Number} : x.equals y = true → Similar heap same (.number x) (.number y)
  | array {r s : ArrayRef} : List.Forall₂ same (heap.array r).toList (heap.array s).toList →
      Similar heap same (.array r) (.array s)
  /-- The order of the fields does not matter. -/
  | object {r s : ObjectRef} : (heap.object r).size = (heap.object s).size →
      (∀ key x, (key, x) ∈ (heap.object r).entries → ∃ y, (heap.object s).get? key = some y ∧ same x y) →
      Similar heap same (.object r) (.object s)
  /-- The names of the tables do not matter. -/
  | table {r s : TableRef} : (heap.table r).headers = (heap.table s).headers →
      List.Forall₂ (List.Forall₂ same) (heap.table r).rows (heap.table s).rows →
      Similar heap same (.table r) (.table s)

theorem pairwise_iff {equal : Value → Value → Bool} {xs ys : List Value} :
    pairwise equal xs ys = true ↔ List.Forall₂ (fun x y => equal x y = true) xs ys := by
  induction xs generalizing ys with
  | nil => cases ys <;> simp [pairwise]
  | cons x xs ih => cases ys <;> simp [pairwise, ih]

theorem rowsPairwise_iff {equal : Value → Value → Bool} {xs ys : List (List Value)} :
    rowsPairwise equal xs ys = true ↔ List.Forall₂ (List.Forall₂ fun x y => equal x y = true) xs ys := by
  induction xs generalizing ys with
  | nil => cases ys <;> simp [rowsPairwise]
  | cons x xs ih => cases ys <;> simp [rowsPairwise, pairwise_iff, ih]

theorem fieldsMatch_iff {equal : Value → Value → Bool} {o p : Object} :
    fieldsMatch equal o p = true ↔
      ∀ key x, (key, x) ∈ o.entries → ∃ y, p.get? key = some y ∧ equal x y = true := by
  simp only [fieldsMatch, List.all_eq_true, Prod.forall]
  refine forall₃_congr fun key x _ => ?_
  cases p.get? key <;> simp

theorem equalWithin_succ_iff {depth : Nat} :
    equalWithin heap (depth + 1) a b = true ↔
      Similar heap (fun x y => equalWithin heap depth x y = true) a b := by
  constructor
  · intro equal
    cases a <;> cases b <;> simp only [equalWithin, Bool.false_eq_true] at equal
    case number.number => exact .number equal
    case array.array => exact .array (pairwise_iff.mp equal)
    case object.object =>
        rw [Bool.or_eq_true, beq_iff_eq, Bool.and_eq_true, beq_iff_eq, fieldsMatch_iff] at equal
        rcases equal with rfl | ⟨size, fields⟩
        · exact .itself (by simp) (by simp)
        · exact .object size fields
    case table.table =>
        rw [Bool.or_eq_true, beq_iff_eq, Bool.and_eq_true, beq_iff_eq, rowsPairwise_iff] at equal
        rcases equal with rfl | ⟨headers, rows⟩
        · exact .itself (by simp) (by simp)
        · exact .table headers rows
    case column.column =>
        rw [Bool.and_eq_true, beq_iff_eq, beq_iff_eq] at equal
        rw [equal.1, equal.2]
        exact .itself (by simp) (by simp)
    case null.null => exact .itself (by simp) (by simp)
    all_goals
      rw [beq_iff_eq] at equal
      rw [equal]
      exact .itself (by simp) (by simp)
  · intro similar
    cases similar with
    | itself notNumber notArray =>
        cases a with
        | number x => exact absurd rfl (notNumber x)
        | array r => exact absurd rfl (notArray r)
        | _ => simp [equalWithin]
    | number equal => exact equal
    | array elements => exact pairwise_iff.mpr elements
    | object size fields => simp [equalWithin, size, fieldsMatch_iff.mpr fields]
    | table headers rows => simp [equalWithin, headers, rowsPairwise_iff.mpr rows]

private theorem forall₂_trans {α : Type} {related : α → α → Prop} {xs ys zs : List α}
    (trans : ∀ x y z, related x y → related y z → related x z) (first : List.Forall₂ related xs ys)
    (second : List.Forall₂ related ys zs) : List.Forall₂ related xs zs := by
  induction first generalizing zs with
  | nil => exact second
  | cons head _ ih =>
      cases second with
      | cons head' rest => exact .cons (trans _ _ _ head head') (ih rest)

private theorem forall₂_symm {α : Type} {related related' : α → α → Prop} {xs ys : List α}
    (turn : ∀ x y, related x y → related' y x) (both : List.Forall₂ related xs ys) :
    List.Forall₂ related' ys xs :=
  (both.imp turn).flip

private theorem forall₂_imp_of_mem {α : Type} {related related' : α → α → Prop} {xs ys : List α}
    (imp : ∀ x ∈ xs, ∀ y, related x y → related' x y) (both : List.Forall₂ related xs ys) :
    List.Forall₂ related' xs ys :=
  ((List.forall₂_and_left _ _).mpr ⟨imp, both⟩).imp fun _ y ⟨imp, found⟩ => imp y found

namespace Similar

/-- In two objects with as many fields, one of which has a counterpart for every field of the other, each
has one for the fields of the other, since no name occurs twice. -/
private theorem fields_symm {o p : Object} (size : o.size = p.size) (turn : ∀ x y, same x y → same' y x)
    (fields : ∀ key x, (key, x) ∈ o.entries → ∃ y, p.get? key = some y ∧ same x y) :
    ∀ key y, (key, y) ∈ p.entries → ∃ x, o.get? key = some x ∧ same' y x := by
  have within : o.keys ⊆ p.keys := by
    intro key member
    obtain ⟨⟨_, x⟩, stored, rfl⟩ := List.mem_map.mp member
    obtain ⟨y, found, _⟩ := fields _ x stored
    exact List.mem_map.mpr ⟨_, Dictionary.mem_of_get? found, rfl⟩
  have all : o.keys.Perm p.keys := by
    apply (List.subperm_of_subset o.nodup_keys within).perm_of_length_le
    rw [Dictionary.length_keys, Dictionary.length_keys, size]
  intro key y stored
  obtain ⟨⟨_, x⟩, stored', rfl⟩ := List.mem_map.mp (all.mem_iff.mpr (List.mem_map.mpr ⟨_, stored, rfl⟩))
  obtain ⟨y', found, related⟩ := fields _ x stored'
  rw [Dictionary.get?_of_mem stored] at found
  cases found
  exact ⟨x, Dictionary.get?_of_mem stored', turn x y related⟩

theorem symm (turn : ∀ x y, same x y → same' y x) (similar : Similar heap same a b) :
    Similar heap same' b a := by
  cases similar with
  | itself notNumber notArray => exact .itself notNumber notArray
  | number equal =>
      apply Similar.number
      simp only [Number.equals, Bool.and_eq_true, beq_iff_eq] at equal ⊢
      exact ⟨⟨equal.1.2, equal.1.1⟩, equal.2.symm⟩
  | array elements => exact .array (forall₂_symm turn elements)
  | object size fields => exact .object size.symm (fields_symm size turn fields)
  | table headers rows => exact .table headers.symm (forall₂_symm (fun _ _ => forall₂_symm turn) rows)

theorem trans (compose : ∀ x y z, same x y → same y z → same x z) (first : Similar heap same a b)
    (second : Similar heap same b c) : Similar heap same a c := by
  cases first with
  | itself => exact second
  | number equal =>
      cases second with
      | itself notNumber _ => exact absurd rfl (notNumber _)
      | number equal' =>
          apply Similar.number
          simp only [Number.equals, Bool.and_eq_true, beq_iff_eq] at equal equal' ⊢
          exact ⟨⟨equal.1.1, equal'.1.2⟩, equal.2.trans equal'.2⟩
  | array elements =>
      cases second with
      | itself _ notArray => exact absurd rfl (notArray _)
      | array elements' => exact .array (forall₂_trans compose elements elements')
  | object size fields =>
      cases second with
      | itself => exact .object size fields
      | object size' fields' =>
          refine .object (size.trans size') fun key x stored => ?_
          obtain ⟨y, found, one⟩ := fields key x stored
          obtain ⟨z, found', two⟩ := fields' key y (Dictionary.mem_of_get? found)
          exact ⟨z, found', compose x y z one two⟩
  | table headers rows =>
      cases second with
      | itself => exact .table headers rows
      | table headers' rows' =>
          exact .table (headers.trans headers')
            (forall₂_trans (fun _ _ _ => forall₂_trans compose) rows rows')

/-- Only what is inside the first value is ever compared. -/
theorem imp (imp : ∀ ref, refOf a = some ref → ∀ x ∈ heap.contents ref, ∀ y, same x y → same' x y)
    (similar : Similar heap same a b) : Similar heap same' a b := by
  cases similar with
  | itself notNumber notArray => exact .itself notNumber notArray
  | number equal => exact .number equal
  | array elements => exact .array (forall₂_imp_of_mem (imp _ rfl) elements)
  | object size fields =>
      refine .object size fun key x stored => ?_
      obtain ⟨y, found, related⟩ := fields key x stored
      exact ⟨y, found, imp _ rfl x (List.mem_map.mpr ⟨_, stored, rfl⟩) y related⟩
  | table headers rows =>
      refine .table headers (forall₂_imp_of_mem (fun row listed _ => ?_) rows)
      exact forall₂_imp_of_mem fun x cell => imp _ rfl x (List.mem_flatten.mpr ⟨row, listed, cell⟩)

theorem refl_iff : Similar heap same v v ↔
    (∀ x, v = .number x → x.isNaN = false) ∧ ∀ r, v = .array r → ∀ x ∈ heap.array r, same x x := by
  constructor
  · intro similar
    constructor
    · rintro x rfl
      cases similar with
      | itself notNumber _ => exact absurd rfl (notNumber x)
      | number equal => simpa [Number.equals] using equal
    · rintro r rfl x inside
      cases similar with
      | itself _ notArray => exact absurd rfl (notArray r)
      | array elements => exact List.forall₂_same.mp elements x (Array.mem_toList_iff.mpr inside)
  · rintro ⟨numeric, elements⟩
    cases v with
    | number x => exact .number (by simp [Number.equals, numeric x rfl])
    | array r =>
        exact .array (List.forall₂_same.mpr fun x inside =>
          elements r rfl x (Array.mem_toList_iff.mp inside))
    | _ => exact .itself (by simp) (by simp)

end Similar

/-! ## All levels -/

variable {depth depth' : Nat}

theorem equalWithin_symm (equal : equalWithin heap depth a b = true) :
    equalWithin heap depth b a = true := by
  induction depth generalizing a b with
  | zero => cases equal
  | succ depth ih =>
      rw [equalWithin_succ_iff] at equal ⊢
      exact equal.symm fun _ _ => ih

theorem equalWithin_trans (first : equalWithin heap depth a b = true)
    (second : equalWithin heap depth b c = true) : equalWithin heap depth a c = true := by
  induction depth generalizing a b c with
  | zero => cases first
  | succ depth ih =>
      rw [equalWithin_succ_iff] at first second ⊢
      exact first.trans (fun _ _ _ => ih) second

theorem equalWithin_mono (deeper : depth ≤ depth') (equal : equalWithin heap depth a b = true) :
    equalWithin heap depth' a b = true := by
  induction depth generalizing a b depth' with
  | zero => cases equal
  | succ depth ih =>
      obtain ⟨depth', rfl⟩ : ∃ n, depth' = n + 1 := ⟨depth' - 1, by omega⟩
      rw [equalWithin_succ_iff] at equal ⊢
      exact equal.imp fun _ _ _ _ _ => ih (Nat.le_of_succ_le_succ deeper)

end Value

/-! ## Values without cycles -/

namespace Heap

variable {heap : Heap} {v x : Value} {n : Nat}

/-- No way down from the value leads through more than `n` containers. -/
def Shallow (heap : Heap) : (n : Nat) → Value → Prop
  | 0, v => refOf v = none
  | n + 1, v => ∀ ref, refOf v = some ref → ∀ x ∈ heap.contents ref, heap.Shallow n x

/-- The containers above `x` on a way down from `v` are different and have contents, so they are containers
of the heap, and there are no more of them than the heap has. -/
private theorem Acyclic.shallow_below {above : List Ref} (acyclic : heap.Acyclic v) (shows_ : heap.Shows v x)
    (once : above.Nodup) (held : ∀ outer ∈ above, heap.Holds outer)
    (around : ∀ outer ∈ above, ∀ ref, refOf x = some ref → Relation.TransGen heap.Directly outer ref)
    (deep : heap.size < above.length + n) : heap.Shallow n x := by
  induction n generalizing above x with
  | zero =>
      have few := (List.subperm_of_subset once fun outer member => mem_refs.mpr (held outer member)).length_le
      rw [length_refs] at few
      omega
  | succ n ih =>
      intro ref found y inside
      have holds : heap.Holds ref := by
        by_contra missing
        rw [contents_of_not_holds missing] at inside
        cases inside
      have new : ref ∉ above := fun member =>
        acyclic ref (shows_.reached found) (around ref member ref found)
      refine ih (shows_.inside found inside) (List.nodup_cons.mpr ⟨new, once⟩)
        (List.forall_mem_cons.mpr ⟨holds, held⟩) ?_ (by rw [List.length_cons]; omega)
      intro outer member inner found'
      have direct : heap.Directly ref inner := List.mem_filterMap.mpr ⟨y, inside, found'⟩
      rcases List.mem_cons.mp member with rfl | earlier
      · exact .single direct
      · exact (around outer earlier ref found).tail direct

theorem Acyclic.shallow (acyclic : heap.Acyclic v) : heap.Shallow (heap.size + 1) v := by
  apply acyclic.shallow_below (.inl rfl) List.nodup_nil
  · simp
  · simp
  · rw [List.length_nil]
    omega

/-- `x` is the value or is found in it by descending through arrays only. -/
inductive InArrays (heap : Heap) : Value → Value → Prop where
  | itself {v : Value} : InArrays heap v v
  | inside {r : ArrayRef} {x y : Value} : x ∈ heap.array r → InArrays heap x y → InArrays heap (.array r) y

end Heap

namespace Value

variable {heap : Heap} {a b v : Value} {n depth : Nat}

/-- A comparison with a value that is no deeper than `n` needs no more than one level more. -/
theorem equalWithin_of_shallow (shallow : heap.Shallow n a) (equal : equalWithin heap depth a b = true) :
    equalWithin heap (n + 1) a b = true := by
  induction n generalizing a b depth with
  | zero =>
      cases depth with
      | zero => cases equal
      | succ depth =>
          rw [equalWithin_succ_iff] at equal ⊢
          exact equal.imp fun ref found => by cases found.symm.trans shallow
  | succ n ih =>
      cases depth with
      | zero => cases equal
      | succ depth =>
          rw [equalWithin_succ_iff] at equal ⊢
          exact equal.imp fun ref found x inside y => ih (shallow ref found x inside)

theorem equalWithin_self_iff (shallow : heap.Shallow n v) :
    equalWithin heap (n + 1) v v = true ↔ ∀ x, heap.InArrays v (.number x) → x.isNaN = false := by
  induction n generalizing v with
  | zero =>
      rw [equalWithin_succ_iff, Similar.refl_iff]
      constructor
      · rintro ⟨numeric, _⟩ x found
        cases found with
        | itself => exact numeric x rfl
        | inside => cases shallow
      · intro numeric
        refine ⟨?_, ?_⟩
        · rintro x rfl
          exact numeric x .itself
        · rintro r rfl
          cases shallow
  | succ n ih =>
      rw [equalWithin_succ_iff, Similar.refl_iff]
      have below {r : ArrayRef} (same : v = .array r) {x : Value} (inside : x ∈ heap.array r) :
          equalWithin heap (n + 1) x x = true ↔ ∀ y, heap.InArrays x (.number y) → y.isNaN = false := by
        subst same
        exact ih (shallow (.array r) rfl x (Array.mem_toList_iff.mpr inside))
      constructor
      · rintro ⟨numeric, elements⟩ x found
        cases found with
        | itself => exact numeric x rfl
        | inside inside found => exact (below rfl inside).mp (elements _ rfl _ inside) x found
      · intro numeric
        refine ⟨?_, ?_⟩
        · rintro x rfl
          exact numeric x .itself
        · intro r same x inside
          refine (below same inside).mpr fun y found => numeric y ?_
          rw [same]
          exact .inside inside found

/-- The depth of a comparison cannot be seen once it exceeds the number of containers. -/
theorem equalWithin_eq (acyclic : heap.Acyclic a) (deep : heap.size + 2 ≤ depth) :
    equalWithin heap depth a b = equalWithin heap (heap.size + 2) a b := by
  rw [Bool.eq_iff_iff]
  exact ⟨equalWithin_of_shallow acyclic.shallow, equalWithin_mono deep⟩

theorem le_comparisonDepth (heap : Heap) : heap.size + 2 ≤ comparisonDepth heap :=
  Nat.add_le_add_right (Nat.le_mul_self heap.size) 2

/-- Equality is symmetric and transitive, and a value without cycles equals itself unless descending through
arrays alone leads to a word that is not a number. On values without cycles it is the comparison to any
greater depth, too. -/
theorem equal_isPartialEquivalence (heap : Heap) :
    (∀ a b, equal heap a b = equal heap b a) ∧
    (∀ a b c, equal heap a b = true → equal heap b c = true → equal heap a c = true) ∧
    (∀ v, heap.Acyclic v →
      (equal heap v v = true ↔ ∀ x, heap.InArrays v (.number x) → x.isNaN = false)) ∧
    ∀ a b depth, heap.Acyclic a → comparisonDepth heap ≤ depth →
      equalWithin heap depth a b = equal heap a b := by
  refine ⟨fun a b => ?_, fun a b c => equalWithin_trans, fun v acyclic => ?_, fun a b depth acyclic deep => ?_⟩
  · rw [Bool.eq_iff_iff]
    exact ⟨equalWithin_symm, equalWithin_symm⟩
  · rw [equal, equalWithin_eq acyclic (le_comparisonDepth heap)]
    exact equalWithin_self_iff acyclic.shallow
  · rw [equal, equalWithin_eq acyclic (le_comparisonDepth heap),
      equalWithin_eq acyclic (Nat.le_trans (le_comparisonDepth heap) deep)]

end Value

/-! Two arrays with the same contents, whose objects got their fields in different orders and whose tables
have different names and rows of different lengths; a table with a cell that is not a number, in an array;
and an array with an element that is none. -/

namespace Twins

def first : Value := .array ⟨0⟩

def second : Value := .array ⟨1⟩

def guarded : Value := .array ⟨2⟩

def bare : Value := .array ⟨3⟩

def heap : Heap where
  arrays := #[#[.object ⟨0⟩, .table ⟨0⟩], #[.object ⟨1⟩, .table ⟨1⟩], #[.table ⟨2⟩], #[.number .nan]]
  objects := #[.ofEntries [([0x61], .bool true), ([0x62], .null)],
    .ofEntries [([0x62], .null), ([0x61], .bool true)]]
  tables := #[⟨[0x74], [[0x63]], [[.null, .column ⟨0⟩ [0x63]], []], [[0x63]]⟩,
    ⟨[0x75], [[0x63]], [[.null, .column ⟨0⟩ [0x63]], []], [[0x63]]⟩,
    ⟨[0x76], [[0x63]], [[.number .nan]], [[0x63]]⟩]

/-- Only arrays contain containers, and none of them an array. -/
theorem children_eq_nil {ref : Ref} (other : ∀ r, ref ≠ .array r) : heap.children ref = [] := by
  match ref with
  | .array r => exact absurd rfl (other r)
  | .object ⟨0⟩ | .object ⟨1⟩ | .table ⟨0⟩ | .table ⟨1⟩ | .table ⟨2⟩ => rfl
  | .object ⟨n + 2⟩ | .table ⟨n + 3⟩ => rfl

theorem not_array_of_child {r : ArrayRef} {ref : Ref} (child : ref ∈ heap.children (.array r)) :
    ∀ q, ref ≠ .array q := by
  match r with
  | ⟨0⟩ | ⟨1⟩ | ⟨2⟩ | ⟨3⟩ =>
      rintro q rfl
      simp [Heap.children, Heap.contents, Heap.array, heap, refOf] at child
  | ⟨n + 4⟩ => cases child

/-- Arrays are outside. -/
def rank : Ref → Nat
  | .array _ => 1
  | .object _ | .table _ => 0

theorem acyclic (v : Value) : heap.Acyclic v := by
  apply Heap.acyclic_of_rank rank
  intro outer inner _ direct
  cases outer with
  | array r =>
      have leaf := not_array_of_child direct
      cases inner with
      | array q => exact absurd rfl (leaf q)
      | object | table => exact Nat.zero_lt_one
  | object | table =>
      rw [Heap.Directly, children_eq_nil (by simp)] at direct
      cases direct

end Twins

namespace Value

theorem equal_isPartialEquivalence_of_twins :
    Twins.heap.Acyclic Twins.guarded ∧
    equal Twins.heap Twins.second Twins.first = true ∧ equal Twins.heap Twins.first Twins.first = true ∧
    equal Twins.heap Twins.guarded Twins.guarded = true ∧ equal Twins.heap Twins.bare Twins.bare = false := by
  obtain ⟨symm, trans, self, _⟩ := equal_isPartialEquivalence Twins.heap
  have equal_ : equal Twins.heap Twins.first Twins.second = true := by decide +kernel
  have turned := (symm Twins.first Twins.second).symm.trans equal_
  refine ⟨Twins.acyclic _, turned, trans _ _ _ equal_ turned, ?_, ?_⟩
  · refine (self _ (Twins.acyclic _)).mpr fun x found => ?_
    cases found with
    | inside inside found =>
        simp [Heap.array, Twins.heap] at inside
        subst inside
        cases found
  · rw [Bool.eq_false_iff]
    intro equal_
    have numeric := (self _ (Twins.acyclic _)).mp equal_ .nan (.inside (by simp [Heap.array, Twins.heap]) .itself)
    exact absurd numeric (by decide)

end Value

/-! ## Keys -/

namespace Memo

/-- A list of arguments has no key exactly when one of them is of another kind than null, number, truth
value and string, or is not a number; and two lists that have keys have one key exactly when they are
equally long and equal position by position. -/
theorem keys_decide_equality (heap : Heap) (xs ys : List Value) :
    (key? xs = none ↔ ∃ v ∈ xs,
      v.kind ∉ [Kind.null, .number, .bool, .string] ∨ ∃ x, v = .number x ∧ x.isNaN = true) ∧
    ∀ k l, key? xs = some k → key? ys = some l →
      (k = l ↔ List.Forall₂ (fun x y => Value.equal heap x y = true) xs ys) := by
  constructor
  · have keyable (v : Value) : ¬ Keyable v ↔
        v.kind ∉ [Kind.null, .number, .bool, .string] ∨ ∃ x, v = .number x ∧ x.isNaN = true := by
      cases v <;> simp [Keyable, Value.isHashable, Value.kind]
    rw [← Option.not_isSome_iff_eq_none, key?_isSome_iff]
    push Not
    simp only [keyable]
  · intro k l keyed keyed'
    rw [← Value.pairwise_iff, ← key?_eq_iff heap keyed, keyed', Option.some.injEq, eq_comm]

/-- A string whose bytes are those of a truth value's part, and the two zeros. -/
theorem keys_decide_equality_of_imitation :
    ∃ k l m, key? [.number .zero, .string [2, 1]] = some k ∧
      key? [.number Number.zero.negate, .string [2, 1]] = some l ∧
      key? [.number .zero, .string [], .bool true] = some m ∧ k = l ∧ k ≠ m ∧
      key? [.bool true, .number .nan] = none := by
  have keyed (xs : List Value) (all : ∀ v ∈ xs, Keyable v) : ∃ k, key? xs = some k :=
    Option.isSome_iff_exists.mp (key?_isSome_iff.mpr all)
  obtain ⟨k, first⟩ := keyed [.number .zero, .string [2, 1]]
    (by simp [Keyable, Value.isHashable]; decide)
  obtain ⟨l, second⟩ := keyed [.number Number.zero.negate, .string [2, 1]]
    (by simp [Keyable, Value.isHashable]; decide)
  obtain ⟨m, third⟩ := keyed [.number .zero, .string [], .bool true]
    (by simp [Keyable, Value.isHashable]; decide)
  refine ⟨k, l, m, first, second, third, ?_, ?_, ?_⟩
  · apply ((keys_decide_equality {} _ _).2 k l first second).mpr
    rw [← Value.pairwise_iff]
    decide
  · rw [Ne, (keys_decide_equality {} _ _).2 k m first third, ← Value.pairwise_iff]
    decide
  · apply (keys_decide_equality {} _ []).1.mpr
    exact ⟨.number .nan, by simp, .inr ⟨_, rfl, by decide⟩⟩

end Memo

end TableMachine
