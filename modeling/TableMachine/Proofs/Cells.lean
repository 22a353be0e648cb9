import Mathlib.Data.List.Induction
import TableMachine.Proofs.Numbers
import TableMachine.Proofs.Tables

/-! # Ways to a cell

A cell of a table can be reached through its column, through the object of its row, and through the array of rows.
The three ways are separate code: each checks the index for itself, against a length that it finds for itself, and
columns and objects look a header up each in their own way. Here they are compared.

Whether an index is accepted, and with what type of fault it is refused, depends only on the number of rows, which
`place` says. But a header that occurs twice has two meanings: a column is that of its first position, and the
object of a row holds the cell at its last.
-/

namespace TableMachine

/-! ## Tables built row by row -/

namespace Table

variable {t t' : Table} {headers : List Text} {name : Text} {row : List Value} {v : Value} {p n : Nat}

/-- The table was made from headers, and every row was added to it. -/
inductive Built : Table → Prop where
  | ofHeaders (headers : List Text) : Built (.ofHeaders headers)
  | addRow {t t' : Table} {row : List Value} : Built t → t.addRow? row = some t' → Built t'

theorem Built.regular (built : t.Built) : t.Regular := by
  induction built with
  | ofHeaders headers => exact ofHeaders_regular headers
  | addRow _ added ih => exact (ih.addRow? added).1

/-- The header stands at the position and at none behind it. -/
structure IsLast (headers : List Text) (name : Text) (p : Nat) : Prop where
  found : headers[p]? = some name
  later : ∀ j, p < j → headers[j]? ≠ some name

theorem exists_isLast (member : name ∈ headers) : ∃ p, IsLast headers name p := by
  induction headers with
  | nil => cases member
  | cons header rest ih =>
      by_cases behind : name ∈ rest
      · obtain ⟨p, last⟩ := ih behind
        refine ⟨p + 1, last.found, fun j above => ?_⟩
        obtain ⟨j, rfl⟩ := Nat.exists_eq_succ_of_ne_zero (Nat.ne_zero_of_lt above)
        exact last.later j (Nat.lt_of_succ_lt_succ above)
      · obtain rfl : name = header := (List.mem_cons.mp member).resolve_right behind
        refine ⟨0, rfl, fun j above found => ?_⟩
        obtain ⟨j, rfl⟩ := Nat.exists_eq_succ_of_ne_zero (Nat.ne_zero_of_lt above)
        exact behind (List.mem_of_getElem? found)

/-- The object of a row holds the cell at the last position of a header. -/
theorem get?_rowObject (length : row.length = headers.length) (last : IsLast headers name p) :
    (rowObject headers row).get? name = row[p]? := by
  obtain ⟨header, _⟩ := List.getElem?_eq_some_iff.mp last.found
  have inside : p < row.length := by omega
  have cell : row[p]? = some row[p] := List.getElem?_eq_getElem inside
  rw [cell]
  apply Dictionary.get?_ofEntries_of_last (p := p)
  · exact List.getElem?_zip_eq_some.mpr ⟨last.found, cell⟩
  · intro j w above found
    exact last.later j above (List.getElem?_zip_eq_some.mp found).1

/-- A header that occurs once has one position. -/
theorem IsLast.idxOf?_eq (last : IsLast headers name p) (once : headers.count name = 1) :
    headers.idxOf? name = some p := by
  obtain ⟨inside, here⟩ := List.getElem?_eq_some_iff.mp last.found
  have before : name ∉ headers.take p := by
    have parts : headers.take p ++ name :: headers.drop (p + 1) = headers := by
      rw [← here, ← List.drop_eq_getElem_cons inside, List.take_append_drop]
    rw [← parts, List.count_append, List.count_cons_self] at once
    exact List.count_eq_zero.mp (by omega)
  apply List.idxOf?_eq_some_iff.mpr
  refine ⟨inside, here, fun j below found => before ?_⟩
  exact List.mem_take_iff_getElem.mpr ⟨j, by omega, found⟩

end Table

namespace Operation

open Number

variable {files : Files} {heap : Heap} {r : TableRef} {a : ArrayRef} {name : Text} {x : Number} {v : Value}
  {row : List Value} {rows : List (List Value)} {e : ErrorType} {count k n : Nat}

/-! ## Indexes -/

/-- What becomes of a number as an index into `count` things: a position among them, or the type of the fault. -/
def place (count : Nat) (x : Number) : Except ErrorType Nat :=
  if x.isNaN then .error .type
  else if x.less .zero then .error .runtime
  else if (Number.ofNat maxIndex).less x then .error .index
  else if x.wholePart < count then .ok x.wholePart
  else .error .index

/-- The checks that every index undergoes leave only the comparison with the length to the container. -/
theorem position_cases (of_ : Indexed) (count : Nat) (x : Number) :
    (∃ cause, position of_ (.number x) = .error cause ∧ place count x = .error cause.errorType) ∨
    (∃ n, position of_ (.number x) = .ok n ∧ place count x = if n < count then .ok n else .error .index) := by
  have checks : position of_ (.number x) =
      if x.isNaN then .error (.indexNaN of_)
      else if x.less .zero then .error (.indexNegative of_)
      else if (Number.ofNat maxIndex).less x then .error (.indexHuge of_ x.truncate.display)
      else .ok x.wholePart := rfl
  unfold place
  rw [checks]
  by_cases nan : x.isNaN
  · rw [if_pos nan, if_pos nan]
    exact .inl ⟨_, rfl, rfl⟩
  · rw [if_neg nan, if_neg nan]
    by_cases negative : x.less .zero
    · rw [if_pos negative, if_pos negative]
      exact .inl ⟨_, rfl, rfl⟩
    · rw [if_neg negative, if_neg negative]
      by_cases huge : (Number.ofNat maxIndex).less x
      · rw [if_pos huge, if_pos huge]
        exact .inl ⟨_, rfl, rfl⟩
      · rw [if_neg huge, if_neg huge]
        exact .inr ⟨_, rfl, rfl⟩

theorem position_of_place (of_ : Indexed) (accepted : place count x = .ok n) :
    position of_ (.number x) = .ok n ∧ n < count := by
  rcases position_cases of_ count x with ⟨cause, -, refused⟩ | ⟨m, found, placed⟩
  · rw [refused] at accepted
    cases accepted
  · rw [placed] at accepted
    split at accepted
    · rename_i inside
      cases accepted
      exact ⟨found, inside⟩
    · cases accepted

/-- A number that is refused is refused everywhere with one type of fault, if positions behind the last are. -/
theorem mapError_of_place (of_ : Indexed) {next : Nat → Except Cause (Value × Heap)}
    (outside : ∀ n, count ≤ n → (next n).mapError Cause.errorType = .error .index)
    (refused : place count x = .error e) :
    (position of_ (.number x) >>= next).mapError Cause.errorType = .error e := by
  rcases position_cases of_ count x with ⟨cause, found, placed⟩ | ⟨n, found, placed⟩
  · rw [placed] at refused
    cases refused
    rw [found]
    rfl
  · rw [found]
    rw [placed] at refused
    split at refused
    · cases refused
    · rename_i beyond
      cases refused
      exact outside n (Nat.le_of_not_lt beyond)

/-- The greatest index is compared exactly, with natural numbers of any size. -/
theorem maxIndex_less_ofNat_iff (n : Nat) : (Number.ofNat maxIndex).less (.ofNat n) = true ↔ maxIndex < n := by
  have greatest : (Number.ofNat maxIndex).magnitude = (30 + 1022) * 2 ^ 52 + (2 ^ 31 - 1) * 2 ^ 22 := by decide
  have limit : maxIndex = 2 ^ 31 - 1 := rfl
  rw [ofNat_less_ofNat_iff, greatest, limit]
  by_cases zero_ : n = 0
  · subst zero_
    decide
  · obtain ⟨kept, lower, upper, exact_, word⟩ := exists_ofNat zero_
    have infinite : infinityMagnitude = 2047 * 2 ^ 52 := rfl
    rw [word, magnitude_ofMagnitude (Nat.lt_of_le_of_lt (Nat.min_le_right _ _) (by decide)), infinite]
    -- The exponent alone decides, except for numbers of 31 bits, which are exact.
    by_cases high : n < 2 ^ 31
    · have log : Nat.log2 n < 31 := (Nat.log2_lt zero_).mpr high
      have same : Nat.log2 n = 30 → kept = n * 2 ^ 22 := by
        intro log
        rw [exact_ (by omega), log]
      omega
    · have log : 31 ≤ Nat.log2 n := (Nat.le_log2 zero_).mpr (Nat.le_of_not_lt high)
      omega

theorem place_ofNat (inside : n < count) :
    place count (.ofNat n) = if maxIndex < n then .error .index else .ok n := by
  unfold place
  rw [isNaN_ofNat, ofNat_less_zero]
  by_cases huge : maxIndex < n
  · rw [if_pos huge, if_pos ((maxIndex_less_ofNat_iff n).mpr huge)]
    rfl
  · have limit : maxIndex = 2 ^ 31 - 1 := rfl
    rw [if_neg huge, if_neg fun less_ => huge ((maxIndex_less_ofNat_iff n).mp less_), wholePart_ofNat (by omega),
      if_pos inside]
    rfl

/-! ## The array of rows -/

/-- One row made into an array, behind those before it. -/
def keepRow (state : Array Value × Heap) (row : List Value) : Array Value × Heap :=
  (state.1.push (.array ⟨state.2.arrays.size⟩), (state.2.newArray row.toArray).2)

theorem foldl_keepRow (heap : Heap) (rows : List (List Value)) :
    rows.foldl keepRow (#[], heap) =
      (((List.range rows.length).map fun n => Value.array ⟨heap.arrays.size + n⟩).toArray,
        { heap with arrays := heap.arrays ++ (rows.map List.toArray).toArray }) := by
  induction rows using List.reverseRecOn with
  | nil => simp
  | append_singleton rows row ih =>
      rw [List.foldl_append, ih]
      simp [keepRow, Heap.newArray, List.range_succ]

/-- The array of rows holds at each position the array of the row. -/
theorem rowArrays_spec (heap : Heap) (rows : List (List Value)) : ∃ (a : ArrayRef) (heap' : Heap),
    rowArrays heap rows = (.array a, heap') ∧ (heap'.array a).size = rows.length ∧
    ∀ (n : Nat) (row : List Value), rows[n]? = some row →
      ∃ b : ArrayRef, (heap'.array a)[n]? = some (.array b) ∧ heap'.array b = row.toArray := by
  have folded : rowArrays heap rows =
      let state := rows.foldl keepRow (#[], heap)
      (.array ⟨state.2.arrays.size⟩, (state.2.newArray state.1).2) := rfl
  rw [foldl_keepRow] at folded
  refine ⟨_, _, folded, ?_, ?_⟩
  · simp [Heap.newArray, Heap.array]
  · intro n row found
    obtain ⟨inside, _⟩ := List.getElem?_eq_some_iff.mp found
    -- The array of a row stands behind the old arrays and before the array of rows.
    refine ⟨⟨heap.arrays.size + n⟩, by simp [Heap.newArray, Heap.array, inside], ?_⟩
    have old : n < (rows.map List.toArray).length := by rwa [List.length_map]
    simp [Heap.newArray, Heap.array, Array.getElem?_append_right, List.getElem?_append_left old, found]

/-! ## The ways -/

/-- `container[outer][inner]`. -/
def elementOf (files : Files) (heap : Heap) (container outer inner : Value) : Except Cause (Value × Heap) := do
  let (v, heap) ← element files heap container outer
  element files heap v inner

/-- The length of `container[index]`. -/
def lengthOf (files : Files) (heap : Heap) (container index : Value) : Except Cause Value := do
  let (v, heap) ← element files heap container index
  arrayLength heap v

theorem element_rows (files : Files) (heap : Heap) (r : TableRef) :
    element files heap (.table r) (.string "rows") = .ok (rowArrays heap (heap.table r).rows) := rfl

theorem element_header (regular : (heap.table r).Regular) (member : name ∈ (heap.table r).headers)
    (notRows : name ≠ "rows") (notColumns : name ≠ "columns") :
    element files heap (.table r) (.string name) = .ok (.column r name, heap) := by
  simp only [element, tableElement, if_neg notRows, if_neg notColumns, if_pos (regular.hasColumn_iff.mpr member)]

/-! ### Arrays -/

theorem element_array_of_place (files : Files) (accepted : place (heap.array a).size x = .ok n)
    (found : (heap.array a)[n]? = some v) : element files heap (.array a) (.number x) = .ok (v, heap) := by
  unfold element
  simp only [(position_of_place .array accepted).1, bind, Except.bind, found]

theorem element_array_of_refused (files : Files) (refused : place (heap.array a).size x = .error e) :
    (element files heap (.array a) (.number x)).mapError Cause.errorType = .error e := by
  apply mapError_of_place .array _ refused
  intro n beyond
  rw [Array.getElem?_eq_none beyond]
  rfl

/-! ### Columns -/

theorem column?_eq (regular : (heap.table r).Regular) (first : (heap.table r).headers.idxOf? name = some k) :
    (heap.table r).column? name = some ((heap.table r).rows.map fun row => row.getD k .null) := by
  rw [Table.column?, regular.columnIndex?_eq, first]
  rfl

theorem element_column_of_place (files : Files) (regular : (heap.table r).Regular)
    (first : (heap.table r).headers.idxOf? name = some k) (accepted : place (heap.table r).rowCount x = .ok n)
    (stored : (heap.table r).rows[n]? = some row) (cell : row[k]? = some v) :
    element files heap (.column r name) (.number x) = .ok (v, heap) := by
  have found : ((heap.table r).rows.map fun row => row.getD k .null)[n]? = some v := by
    rw [List.getElem?_map, stored, Option.map_some, List.getD_eq_getElem?_getD, cell, Option.getD_some]
  unfold element
  simp only [(position_of_place .column accepted).1, bind, Except.bind, column?_eq regular first, found]

theorem element_column_of_refused (files : Files) (regular : (heap.table r).Regular)
    (first : (heap.table r).headers.idxOf? name = some k)
    (refused : place (heap.table r).rowCount x = .error e) :
    (element files heap (.column r name) (.number x)).mapError Cause.errorType = .error e := by
  apply mapError_of_place .column _ refused
  intro n beyond
  rw [column?_eq regular first]
  simp only
  rw [List.getElem?_eq_none (by rwa [List.length_map])]
  rfl

/-! ### Objects of rows -/

theorem element_row_of_place (files : Files) (accepted : place (heap.table r).rowCount x = .ok n)
    (stored : (heap.table r).rows[n]? = some row) :
    element files heap (.table r) (.number x) =
      .ok ((heap.newObject (Table.rowObject (heap.table r).headers row)).map Value.object id) := by
  unfold element tableElement
  simp only [(position_of_place .tableRow accepted).1, bind, Except.bind, Table.row?, stored, Option.map_some]
  rfl

theorem element_row_of_refused (files : Files) (refused : place (heap.table r).rowCount x = .error e) :
    (element files heap (.table r) (.number x)).mapError Cause.errorType = .error e := by
  apply mapError_of_place .tableRow _ refused
  intro n beyond
  rw [Table.row?, List.getElem?_eq_none beyond]
  rfl

theorem elementOf_row_of_place (files : Files) (regular : (heap.table r).Regular)
    (last : Table.IsLast (heap.table r).headers name k) (accepted : place (heap.table r).rowCount x = .ok n)
    (stored : (heap.table r).rows[n]? = some row) (cell : row[k]? = some v) :
    elementOf files heap (.table r) (.number x) (.string name) =
      .ok (v, (heap.newObject (Table.rowObject (heap.table r).headers row)).2) := by
  have length := regular.cells row (List.mem_of_getElem? stored)
  have field : (((heap.newObject (Table.rowObject (heap.table r).headers row)).2).object
      ⟨heap.objects.size⟩).get? name = some v := by
    simp [Heap.newObject, Heap.object, Table.get?_rowObject length last, cell]
  rw [elementOf, element_row_of_place files accepted stored]
  simp only [bind, Except.bind, Prod.map, element, Heap.newObject, id] at field ⊢
  rw [field]

theorem elementOf_of_refused {container outer inner : Value}
    (refused : (element files heap container outer).mapError Cause.errorType = .error e) :
    (elementOf files heap container outer inner).mapError Cause.errorType = .error e := by
  unfold elementOf
  cases found : element files heap container outer with
  | error cause =>
      rw [found] at refused
      exact refused
  | ok answer =>
      rw [found] at refused
      cases refused

/-! ## The ways compared -/

theorem elementOf_header (regular : (heap.table r).Regular) (member : name ∈ (heap.table r).headers)
    (notRows : name ≠ "rows") (notColumns : name ≠ "columns") (index : Value) :
    elementOf files heap (.table r) (.string name) index = element files heap (.column r name) index := by
  rw [elementOf, element_header regular member notRows notColumns]
  rfl

/-- In a regular table there is a cell under every header in every row. -/
theorem exists_cell (regular : (heap.table r).Regular) {header : Text}
    (found : (heap.table r).headers[k]? = some header) (stored : (heap.table r).rows[n]? = some row) :
    ∃ v, row[k]? = some v := by
  obtain ⟨header, _⟩ := List.getElem?_eq_some_iff.mp found
  have length := regular.cells row (List.mem_of_getElem? stored)
  have inside : k < row.length := by omega
  exact ⟨row[k], List.getElem?_eq_getElem inside⟩

theorem exists_first (member : name ∈ (heap.table r).headers) : ∃ k,
    (heap.table r).headers.idxOf? name = some k ∧ (heap.table r).headers[k]? = some name := by
  obtain ⟨k, first⟩ := Option.isSome_iff_exists.mp (List.isSome_idxOf?.mpr member)
  obtain ⟨inside, here, _⟩ := List.idxOf?_eq_some_iff.mp first
  exact ⟨k, first, List.getElem?_eq_some_iff.mpr ⟨inside, here⟩⟩

/-- An index is accepted by all three ways to a row or refused by all three with one type of fault; the column has
the cell of the row's array at the first position of its header; and there are as many elements as rows. -/
theorem bounds_agree (files : Files) (built : (heap.table r).Built) (member : name ∈ (heap.table r).headers)
    (notRows : name ≠ "rows") (notColumns : name ≠ "columns") (x : Number) :
    (∀ n, place (heap.table r).rowCount x = .ok n → ∃ row k v o a heap₁ heap₂,
      (heap.table r).rows[n]? = some row ∧ (heap.table r).headers.idxOf? name = some k ∧
      elementOf files heap (.table r) (.string name) (.number x) = .ok (v, heap) ∧
      element files heap (.table r) (.number x) = .ok (.object o, heap₁) ∧
      heap₁.object o = Table.rowObject (heap.table r).headers row ∧
      elementOf files heap (.table r) (.string "rows") (.number x) = .ok (.array a, heap₂) ∧
      heap₂.array a = row.toArray ∧ (heap₂.array a)[k]? = some v) ∧
    (∀ e, place (heap.table r).rowCount x = .error e →
      (elementOf files heap (.table r) (.string name) (.number x)).mapError Cause.errorType = .error e ∧
      (element files heap (.table r) (.number x)).mapError Cause.errorType = .error e ∧
      (elementOf files heap (.table r) (.string "rows") (.number x)).mapError Cause.errorType = .error e) ∧
    lengthOf files heap (.table r) (.string name) = .ok (.ofNat (heap.table r).rowCount) ∧
    lengthOf files heap (.table r) (.string "rows") = .ok (.ofNat (heap.table r).rowCount) := by
  have regular := built.regular
  obtain ⟨k, first, header⟩ := exists_first member
  obtain ⟨a, heap₂, rows, size, arrays⟩ := rowArrays_spec heap (heap.table r).rows
  have listed : elementOf files heap (.table r) (.string "rows") (.number x) =
      element files heap₂ (.array a) (.number x) := by
    rw [elementOf, element_rows, rows]
    rfl
  rw [elementOf_header regular member notRows notColumns, listed]
  refine ⟨fun n accepted => ?_, fun e refused => ⟨?_, ?_, ?_⟩, ?_, ?_⟩
  · have stored : (heap.table r).rows[n]? = some _ :=
      List.getElem?_eq_getElem (position_of_place .tableRow accepted).2
    obtain ⟨v, cell⟩ := exists_cell regular header stored
    obtain ⟨b, found, array⟩ := arrays n _ stored
    have read : (heap₂.array b)[k]? = some v := by rw [array, List.getElem?_toArray, cell]
    exact ⟨_, k, v, _, b, _, heap₂, stored, first,
      element_column_of_place files regular first accepted stored cell,
      element_row_of_place files accepted stored, by simp [Heap.object],
      element_array_of_place files (by rwa [size]) found, array, read⟩
  · exact element_column_of_refused files regular first refused
  · exact element_row_of_refused files refused
  · exact element_array_of_refused files (by rwa [size])
  · rw [lengthOf, element_header regular member notRows notColumns]
    show arrayLength heap (.column r name) = _
    rw [arrayLength, if_pos (regular.hasColumn_iff.mpr member)]
  · rw [lengthOf, element_rows, rows]
    show arrayLength heap₂ (.array a) = _
    rw [arrayLength, size]
    rfl

end Operation

/-! ## A header twice

A table with one row, whose two columns have one name.
-/

namespace Twice

open Operation

def headers : List Text := [[0x61], [0x61]]

def table : Table := { Table.ofHeaders headers with rows := [[.bool true, .bool false]] }

def heap : Heap := (({} : Heap).newTable table).2

def half : Number := ⟨0x3FE0000000000000⟩

theorem built : (heap.table ⟨0⟩).Built := by
  have added : (Table.ofHeaders headers).addRow? [.bool true, .bool false] = some table := rfl
  exact .addRow (.ofHeaders headers) added

end Twice

namespace Operation

variable {heap : Heap} {r : TableRef} {name : Text} {n : Nat}

/-- One half counts as zero, and what is no number is refused. -/
theorem bounds_agree_of_twice :
    (∃ v o a heap₁ heap₂,
      elementOf (.empty []) Twice.heap (.table ⟨0⟩) (.string [0x61]) (.number Twice.half) = .ok (v, Twice.heap) ∧
      element (.empty []) Twice.heap (.table ⟨0⟩) (.number Twice.half) = .ok (.object o, heap₁) ∧
      elementOf (.empty []) Twice.heap (.table ⟨0⟩) (.string "rows") (.number Twice.half) =
        .ok (.array a, heap₂) ∧
      (heap₂.array a)[0]? = some v) ∧
    (elementOf (.empty []) Twice.heap (.table ⟨0⟩) (.string [0x61]) (.number .nan)).mapError Cause.errorType =
      .error .type ∧
    (element (.empty []) Twice.heap (.table ⟨0⟩) (.number .nan)).mapError Cause.errorType = .error .type ∧
    (elementOf (.empty []) Twice.heap (.table ⟨0⟩) (.string "rows") (.number .nan)).mapError Cause.errorType =
      .error .type := by
  have agree := bounds_agree (r := ⟨0⟩) (.empty []) Twice.built (by decide : [0x61] ∈ Twice.headers) (by decide)
    (by decide)
  obtain ⟨row, k, v, o, a, heap₁, heap₂, -, first, column, object, -, array, -, same⟩ :=
    (agree Twice.half).1 0 (by decide)
  obtain rfl : 0 = k := Option.some.inj first
  exact ⟨⟨v, o, a, heap₁, heap₂, column, object, array, same⟩, (agree .nan).2.1 .type (by decide)⟩

/-- A cell by its column is that of the header's first position, by its row that of the header's last; the two are
one where the header occurs once. Both ways refuse rows behind the greatest index. -/
theorem cell_by_column_and_row (files : Files) (built : (heap.table r).Built)
    (member : name ∈ (heap.table r).headers) (notRows : name ≠ "rows") (notColumns : name ≠ "columns")
    (inside : n < (heap.table r).rowCount) : ∃ row first last,
    (heap.table r).rows[n]? = some row ∧ (heap.table r).headers.idxOf? name = some first ∧
    Table.IsLast (heap.table r).headers name last ∧
    (n ≤ maxIndex → ∃ v w heap₁, row[first]? = some v ∧ row[last]? = some w ∧
      elementOf files heap (.table r) (.string name) (.ofNat n) = .ok (v, heap) ∧
      elementOf files heap (.table r) (.ofNat n) (.string name) = .ok (w, heap₁)) ∧
    (maxIndex < n →
      (elementOf files heap (.table r) (.string name) (.ofNat n)).mapError Cause.errorType = .error .index ∧
      (elementOf files heap (.table r) (.ofNat n) (.string name)).mapError Cause.errorType = .error .index) ∧
    ((heap.table r).headers.count name = 1 → first = last) := by
  have regular := built.regular
  obtain ⟨first, firstly, header⟩ := exists_first member
  obtain ⟨last, lastly⟩ := Table.exists_isLast member
  have stored : (heap.table r).rows[n]? = some _ := List.getElem?_eq_getElem inside
  obtain ⟨v, cell⟩ := exists_cell regular header stored
  obtain ⟨w, cell'⟩ := exists_cell regular lastly.found stored
  have placed := place_ofNat inside
  rw [elementOf_header regular member notRows notColumns]
  refine ⟨_, first, last, stored, firstly, lastly, fun small => ?_, fun huge => ?_, fun once => ?_⟩
  · rw [if_neg (Nat.not_lt.mpr small)] at placed
    exact ⟨v, w, _, cell, cell', element_column_of_place files regular firstly placed stored cell,
      elementOf_row_of_place files regular lastly placed stored cell'⟩
  · rw [if_pos huge] at placed
    exact ⟨element_column_of_refused files regular firstly placed,
      elementOf_of_refused (element_row_of_refused files placed)⟩
  · exact Option.some.inj (firstly.symm.trans (lastly.idxOf?_eq once))

/-- The header names the first of the two cells as a column and the second as a field. -/
theorem cell_by_column_and_row_of_twice : ∃ heap₁,
    elementOf (.empty []) Twice.heap (.table ⟨0⟩) (.string [0x61]) (.ofNat 0) = .ok (.bool true, Twice.heap) ∧
    elementOf (.empty []) Twice.heap (.table ⟨0⟩) (.ofNat 0) (.string [0x61]) = .ok (.bool false, heap₁) := by
  obtain ⟨row, first, last, stored, firstly, lastly, cells, -, -⟩ := cell_by_column_and_row (r := ⟨0⟩) (n := 0)
    (.empty []) Twice.built (by decide : [0x61] ∈ Twice.headers) (by decide) (by decide) (by decide)
  obtain rfl : [.bool true, .bool false] = row := Option.some.inj stored
  obtain rfl : 0 = first := Option.some.inj firstly
  obtain rfl : 1 = last := by
    match last, lastly with
    | 0, lastly => exact absurd rfl (lastly.later 1 Nat.zero_lt_one)
    | 1, _ => rfl
    | _ + 2, lastly => nomatch lastly.found
  obtain ⟨v, w, heap₁, left, right, column, field⟩ := cells (Nat.zero_le _)
  cases left
  cases right
  exact ⟨heap₁, column, field⟩

end Operation

end TableMachine
